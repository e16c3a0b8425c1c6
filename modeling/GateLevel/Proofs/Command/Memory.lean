import GateLevel.Command.Run
import GateLevel.Proofs.Command.Storage
import Mathlib.Data.List.Basic

/-! Files in memory are kept as any file system keeps them. Putting contents at a place leaves the
directories as they are, so that every name goes where it went. -/

namespace GateLevel.Command

namespace Files

variable {files : Files} {path : List String} {contents : ByteArray}

theorem lookup_replaceIn (path other : List String) (contents : ByteArray)
    (entries : List (List String × ByteArray)) :
    (replaceIn path contents entries).lookup other =
      if other = path then some contents else entries.lookup other := by
  induction entries with
  | nil => simp only [replaceIn, List.lookup_cons]; grind
  | cons entry rest ih =>
      obtain ⟨first, old⟩ := entry
      simp only [replaceIn]
      split
      next same => simp only [List.lookup_cons]; grind
      next different => simp only [List.lookup_cons, ih]; grind

theorem contents?_replace (files : Files) (path other : List String) (contents : ByteArray) :
    (files.replace path contents).contents? other =
      if other = path then some contents else files.contents? other :=
  lookup_replaceIn path other contents files.entries

theorem contents?_replace_self (files : Files) (path : List String) (contents : ByteArray) :
    (files.replace path contents).contents? path = some contents := by
  rw [contents?_replace, if_pos rfl]

theorem contents?_replace_of_ne {path other : List String} (different : other ≠ path)
    (files : Files) (contents : ByteArray) :
    (files.replace path contents).contents? other = files.contents? other := by
  rw [contents?_replace, if_neg different]

theorem any_replaceIn (holds : List String → Bool) (path : List String) (contents : ByteArray)
    (entries : List (List String × ByteArray)) :
    (replaceIn path contents entries).any (fun entry => holds entry.1) =
      (holds path || entries.any fun entry => holds entry.1) := by
  induction entries with
  | nil => rfl
  | cons entry rest ih =>
      obtain ⟨first, old⟩ := entry
      simp only [replaceIn]
      split
      next same => subst same; simp
      next different => simp only [List.any_cons, ih]; cases holds first <;> simp

def Within (files : Files) (path : List String) : Prop :=
  ∀ front, front <+: path → front.length < path.length → files.isDirectory front = true

theorem isDirectory_replace (within : files.Within path) (contents : ByteArray)
    (directory : List String) :
    (files.replace path contents).isDirectory directory = files.isDirectory directory := by
  have any := any_replaceIn
    (fun other => directory.length < other.length && directory.isPrefixOf other)
    path contents files.entries
  have front := within directory
  rw [Bool.eq_iff_iff]
  simp only [isDirectory, replace, any, Bool.or_eq_true, Bool.and_eq_true, decide_eq_true_eq,
    List.isPrefixOf_iff_prefix] at front ⊢
  tauto

theorem within_of_contents (present : (files.contents? path).isSome) : files.Within path := by
  obtain ⟨contents, found⟩ := Option.isSome_iff_exists.mp present
  obtain ⟨before, after, entries, _⟩ := List.lookup_eq_some_iff.mp found
  intro front leads shorter
  simp only [isDirectory, Bool.or_eq_true, List.any_eq_true]
  exact Or.inr ⟨(path, contents), by simp [entries], by simp [shorter, leads]⟩

end Files

def Place.site? : Except FileError Place → Option (List String)
  | .ok (.site path) => some path
  | _ => none

namespace Files

variable {files : Files} {path : List String} {contents : ByteArray}

theorem site?_follow_replace (within : files.Within path) (contents : ByteArray)
    (directory rest : List String) :
    Place.site? ((files.replace path contents).follow directory rest) =
      Place.site? (files.follow directory rest) := by
  fun_induction follow files directory rest with
  | case1 => rfl
  | case2 directory part rest here ih => rw [follow, if_pos here, ih]
  | case3 directory rest here ih => rw [follow, if_neg here, if_pos rfl, ih]
  | case4 directory part rest here up child present ih =>
      rw [follow, if_neg here, if_neg up]
      simp only [isDirectory_replace within]
      rw [if_pos present, ih]
  | case5 directory part rest here up child vacant last =>
      rw [follow, if_neg here, if_neg up]
      simp only [isDirectory_replace within]
      rw [if_neg vacant, if_pos last]
      rfl
  | case6 directory part rest here up child vacant more slashes =>
      rw [follow, if_neg here, if_neg up]
      simp only [isDirectory_replace within]
      rw [if_neg vacant, if_neg more, if_pos slashes]
      rfl
  | case7 directory part rest here up child vacant more blocked =>
      rw [follow, if_neg here, if_neg up]
      simp only [isDirectory_replace within]
      rw [if_neg vacant, if_neg more, if_neg blocked]
      rfl

def Grounded (files : Files) (directory : List String) : Prop :=
  ∀ front, front <+: directory → files.isDirectory front = true

theorem grounded_working : files.Grounded files.working := by
  intro front leads
  simp [isDirectory, List.isPrefixOf_iff_prefix.mpr leads]

theorem Grounded.front {directory front : List String} (grounded : files.Grounded directory)
    (leads : front <+: directory) : files.Grounded front :=
  fun other before => grounded other (before.trans leads)

theorem Grounded.child {directory : List String} {part : String}
    (grounded : files.Grounded directory)
    (present : files.isDirectory (directory ++ [part]) = true) :
    files.Grounded (directory ++ [part]) := by
  intro front leads
  rcases List.prefix_concat_iff.mp leads with whole | inner
  · rw [whole]
    exact present
  · exact grounded front inner

theorem Grounded.within {directory : List String} (grounded : files.Grounded directory)
    (part : String) : files.Within (directory ++ [part]) := by
  intro front leads shorter
  rcases List.prefix_concat_iff.mp leads with rfl | inner
  · exact absurd shorter (Nat.lt_irrefl _)
  · exact grounded front inner

theorem within_of_follow {directory rest : List String} (grounded : files.Grounded directory)
    (sited : Place.site? (files.follow directory rest) = some path) : files.Within path := by
  fun_induction follow files directory rest with
  | case1 => cases sited
  | case2 directory part rest _ ih => exact ih grounded sited
  | case3 directory rest _ ih => exact ih (grounded.front (List.dropLast_prefix directory)) sited
  | case4 directory part rest _ _ _ present ih => exact ih (grounded.child present) sited
  | case5 directory part rest _ _ child _ _ =>
      have same : child = path := by
        simp only [find] at sited
        split at sited
        · cases sited
        · split at sited
          · cases sited
          · exact Option.some.inj sited
      exact same ▸ grounded.within part
  | case6 => cases sited
  | case7 => cases sited

theorem site?_locate_replace (within : files.Within path) (contents : ByteArray) (name : String) :
    Place.site? ((files.replace path contents).locate name) = Place.site? (files.locate name) := by
  simp only [locate]
  split
  · rfl
  · split
    · rfl
    · split
      · rfl
      · exact site?_follow_replace within contents [] _
      · exact site?_follow_replace within contents files.working _

theorem within_of_locate {name : String} (sited : Place.site? (files.locate name) = some path) :
    files.Within path := by
  simp only [locate] at sited
  split at sited
  · cases sited
  · split at sited
    · cases sited
    · split at sited
      · cases sited
      · exact within_of_follow (grounded_working.front List.nil_prefix) sited
      · exact within_of_follow grounded_working sited

def fileAt? (files : Files) (name : String) : Option (List String) :=
  (Place.site? (files.locate name)).filter fun path => (files.contents? path).isSome

theorem fileAt?_eq_some_iff {name : String} : files.fileAt? name = some path ↔
    Place.site? (files.locate name) = some path ∧ (files.contents? path).isSome := by
  simp [fileAt?, Option.filter_eq_some_iff]

theorem isSome_contents?_replace {other : List String}
    (present : (files.contents? other).isSome) (path : List String) (contents : ByteArray) :
    ((files.replace path contents).contents? other).isSome := by
  rw [contents?_replace]
  split
  · rfl
  · exact present

theorem fileAt?_replace (present : (files.contents? path).isSome) (contents : ByteArray)
    (name : String) : (files.replace path contents).fileAt? name = files.fileAt? name := by
  apply Option.ext
  intro other
  rw [fileAt?_eq_some_iff, fileAt?_eq_some_iff, site?_locate_replace (within_of_contents present),
    contents?_replace]
  by_cases same : other = path
  · simp [same, present]
  · simp [same]

theorem fileAt?_of_openFile {name : String} {handle : Handle}
    (opened : files.openFile name = .ok handle) :
    files.fileAt? name = match handle with
      | .file path => some path
      | .directory | .sink => none := by
  simp only [openFile] at opened
  split at opened
  · cases opened
  · cases opened
  · rename_i path located
    split at opened
    · rename_i present
      obtain rfl := Except.ok.inj opened
      exact fileAt?_eq_some_iff.mpr ⟨by rw [located]; rfl, present⟩
    · cases opened
  · rename_i located
    obtain rfl := Except.ok.inj opened
    simp [fileAt?, located, Place.site?]
  · rename_i located
    obtain rfl := Except.ok.inj opened
    simp [fileAt?, located, Place.site?]

inductive Creates (files : Files) (name : String) : Handle → Files → Prop
  | file {path : List String} (sited : Place.site? (files.locate name) = some path) :
      Creates files name (.file path) (files.replace path .empty)
  | sink (located : files.locate name = .ok .sink) : Creates files name .sink files

theorem creates_of_createFile {name : String} {handle : Handle} {after : Files}
    (created : files.createFile name = .ok (handle, after)) : files.Creates name handle after := by
  simp only [createFile] at created
  split at created
  · cases created
  · cases created
  · cases created
  · rename_i located
    cases created
    exact .sink located
  · rename_i path located
    split at created
    · cases created
    · cases created
      exact .file (by rw [located]; rfl)

end Files

namespace Session

def catalog : Catalog Session Files.Handle where
  File := List String
  find session name := session.files.fileAt? name
  held session path := session.files.contents? path
  of
    | .file path => some path
    | .directory | .sink => none

theorem held_catalog (session : Session) (path : List String) :
    catalog.held session path = session.files.contents? path := rfl

theorem readAll_file {session : Session} {path : List String} {bytes : ByteArray}
    (held : session.files.contents? path = some bytes) :
    (system.readAll (.file path) session).1 = ⟨bytes, none⟩ := by
  change session.files.readAll (.file path) = _
  rw [Files.readAll, held, Option.getD_some]

theorem createFile_eq (name : String) (session : Session) :
    system.createFile name session =
      match session.files.createFile name with
      | .error cause => (.error cause, session)
      | .ok (handle, files) => (.ok handle, { session with files }) := by
  simp only [system, bind, StateT.bind, get, getThe, MonadStateOf.get, StateT.get, pure]
  cases session.files.createFile name <;> rfl

theorem created_of_creates {session : Session} {name : String} {handle : Files.Handle}
    {files : Files} (creates : session.files.Creates name handle files) :
    catalog.Created session name handle { session with files } := by
  cases creates with
  | @file path sited =>
      have within := Files.within_of_locate sited
      constructor
      · apply Files.fileAt?_eq_some_iff.mpr
        rw [Files.site?_locate_replace within, Files.contents?_replace_self]
        exact ⟨sited, rfl⟩
      · rintro _ ⟨⟩
        exact Files.contents?_replace_self ..
      · rintro _ ⟨⟩
        by_cases present : (session.files.contents? path).isSome
        · exact Or.inl (Files.fileAt?_eq_some_iff.mpr ⟨sited, present⟩)
        · exact Or.inr (Option.not_isSome_iff_eq_none.mp present)
      · intro file other
        exact Files.contents?_replace_of_ne (fun same => other (congrArg some same.symm)) ..
      · intro other file found
        obtain ⟨located, present⟩ := Files.fileAt?_eq_some_iff.mp found
        apply Files.fileAt?_eq_some_iff.mpr
        rw [Files.site?_locate_replace within]
        exact ⟨located, Files.isSome_contents?_replace present path .empty⟩
  | sink located =>
      constructor
      · simp [catalog, Files.fileAt?, located, Place.site?]
      · rintro _ ⟨⟩
      · rintro _ ⟨⟩
      · exact fun _ _ => rfl
      · exact fun _ _ found => found

theorem written_of_empty {session : Session} {handle : Files.Handle} (contents : ByteArray)
    (empty : ∀ path, catalog.of handle = some path →
      session.files.contents? path = some .empty) :
    catalog.Written session handle contents
      { session with files := session.files.writeAll contents handle } := by
  cases handle with
  | file path =>
      have present : (session.files.contents? path).isSome := by simp [empty path rfl]
      constructor
      · exact Files.fileAt?_replace present contents
      · rintro _ ⟨⟩
        exact Files.contents?_replace_self ..
      · intro file other
        exact Files.contents?_replace_of_ne (fun same => other (congrArg some same.symm)) ..
  | directory => exact ⟨fun _ => rfl, fun _ own => (by cases own), fun _ _ => rfl⟩
  | sink => exact ⟨fun _ => rfl, fun _ own => (by cases own), fun _ _ => rfl⟩

theorem lawful_system : system.Lawful catalog where
  held_of_find found := (Files.fileAt?_eq_some_iff.mp found).2
  isFile_keeps _ _ := rfl
  openFile_keeps _ _ := rfl
  readAll_keeps _ _ := rfl
  of_openFile opened := by
    rename_i handle
    have found := Files.fileAt?_of_openFile opened
    cases handle <;> exact found.symm
  readAll_congr same := by
    rename_i handle before after
    cases handle with
    | file path =>
        have held : after.files.contents? path = before.files.contents? path := same path rfl
        show after.files.readAll (.file path) = before.files.readAll (.file path)
        rw [Files.readAll, Files.readAll, held]
    | directory => rfl
    | sink => rfl
  createFile_keeps failed := by
    rename_i name session cause
    rw [createFile_eq] at failed ⊢
    cases made : session.files.createFile name with
    | error cause => rfl
    | ok created => simp [made] at failed
  createFile_done done := by
    rename_i name session handle
    rw [createFile_eq] at done ⊢
    cases made : session.files.createFile name with
    | error cause => simp [made] at done
    | ok created =>
        obtain ⟨other, files⟩ := created
        simp only [made] at done
        obtain rfl := Except.ok.inj done
        exact created_of_creates (Files.creates_of_createFile made)
  writeAll_done _ contents _ empty := written_of_empty contents empty

end Session

end GateLevel.Command
