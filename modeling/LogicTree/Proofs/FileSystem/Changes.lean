import LogicTree.Proofs.FileSystem.Places

/-! # What an operation changes

An operation that succeeds makes a directory where nothing stood, writes a file or takes one away.
No operation takes a directory away. So most of what stood in a file system still stands in it
afterwards, and the same paths lead to it.
-/

namespace LogicTree

namespace FileSystem

variable {files before middle after : FileSystem} {made written : Place → Prop}

/-! ## What operations do when they succeed -/

theorem find_eq_ok_iff {path : FilePath} {entry : Entry} :
    files.find path = .ok entry ↔
      (entry = .directory ∧ ∃ found, files.locate path = .ok (.directory found)) ∨
      ∃ above last, files.locate path = .ok (.name above last) ∧
        files.entry? (above ++ [last]) = some entry ∧
        (path.endsInSlash = true → entry = .directory) := by
  unfold find
  rw [bind_eq_ok_iff]
  constructor
  · rintro ⟨target, located, rest⟩
    cases target with
    | directory found =>
        cases rest
        exact .inl ⟨rfl, found, located⟩
    | name above last =>
        right
        refine ⟨above, last, located, ?_⟩
        cases stands : files.entry? (above ++ [last]) with
        | none => simp [stands, throw_eq_error] at rest
        | some stored =>
            cases stored with
            | directory =>
                simp only [stands, pure_eq_ok, Except.ok.injEq] at rest
                exact ⟨rest ▸ rfl, fun _ => rest.symm⟩
            | file content =>
                cases slash : path.endsInSlash <;>
                  simp_all [throw_eq_error, pure_eq_ok]
  · rintro (⟨rfl, found, located⟩ | ⟨above, last, located, stands, slash⟩)
    · exact ⟨_, located, rfl⟩
    · refine ⟨_, located, ?_⟩
      cases entry with
      | directory => simp [stands, pure_eq_ok]
      | file content =>
          have noSlash : path.endsInSlash = false := by simpa using slash
          simp [stands, noSlash, pure_eq_ok]

theorem find_eq_notFound {path : FilePath} {above : Place} {last : String}
    (located : files.locate path = .ok (.name above last))
    (nothing : files.entry? (above ++ [last]) = none) : files.find path = .error .notFound := by
  simp [find, located, nothing, bind, Except.bind, throw_eq_error]

theorem read_eq_ok_iff {path : FilePath} {content : Bytes} :
    files.read path = .ok content ↔ files.find path = .ok (.file content) := by
  unfold read
  rw [bind_eq_ok_iff]
  constructor
  · rintro ⟨entry, found, rest⟩
    cases entry with
    | directory => cases rest
    | file stored =>
        cases rest
        exact found
  · intro found
    exact ⟨_, found, rfl⟩

theorem makeDirectory_eq_ok_iff {path : FilePath} :
    files.makeDirectory path = .ok after ↔
      ∃ above last, files.locate path = .ok (.name above last) ∧
        files.entry? (above ++ [last]) = none ∧ after = files.put (above ++ [last]) .directory := by
  unfold makeDirectory
  rw [bind_eq_ok_iff]
  constructor
  · rintro ⟨target, located, rest⟩
    cases target with
    | directory found => cases rest
    | name above last =>
        refine ⟨above, last, located, ?_⟩
        cases stands : files.entry? (above ++ [last]) with
        | none =>
            simp only [stands, pure_eq_ok, Except.ok.injEq] at rest
            exact ⟨rfl, rest.symm⟩
        | some entry => simp [stands, throw_eq_error] at rest
  · rintro ⟨above, last, located, nothing, rfl⟩
    exact ⟨_, located, by simp [nothing, pure_eq_ok]⟩

theorem write_eq_ok_iff {path : FilePath} {content : Bytes} :
    files.write path content = .ok after ↔
      ∃ above last, files.locate path = .ok (.name above last) ∧ path.endsInSlash = false ∧
        files.entry? (above ++ [last]) ≠ some .directory ∧
        after = files.put (above ++ [last]) (.file content) := by
  unfold write
  rw [bind_eq_ok_iff]
  constructor
  · rintro ⟨target, located, rest⟩
    cases target with
    | directory found => cases rest
    | name above last =>
        refine ⟨above, last, located, ?_⟩
        cases slash : path.endsInSlash with
        | true => simp [slash, throw_eq_error, error_bind] at rest
        | false =>
            refine ⟨rfl, ?_⟩
            rcases stands : files.entry? (above ++ [last]) with - | stored | -
            all_goals simp_all [throw_eq_error, pure_eq_ok]
  · rintro ⟨above, last, located, slash, noDirectory, rfl⟩
    refine ⟨_, located, ?_⟩
    rcases stands : files.entry? (above ++ [last]) with - | stored | -
    all_goals simp_all [pure_eq_ok]

theorem rename_eq_ok_iff {source target : FilePath} :
    files.rename source target = .ok after ↔
      ∃ sourceAbove sourceLast above last entry,
        files.locate source = .ok (.name sourceAbove sourceLast) ∧
        files.locate target = .ok (.name above last) ∧
        files.entry? (sourceAbove ++ [sourceLast]) = some entry ∧ target.endsInSlash = false ∧
        files.entry? (above ++ [last]) ≠ some .directory ∧
        after = (files.erase (sourceAbove ++ [sourceLast])).put (above ++ [last]) entry := by
  unfold rename
  rw [bind_eq_ok_iff]
  constructor
  · rintro ⟨found, sourceLocated, rest⟩
    rw [bind_eq_ok_iff] at rest
    obtain ⟨place, located, rest⟩ := rest
    rcases found with ⟨sourceAbove, sourceLast⟩ | found
    · rcases place with ⟨above, last⟩ | place
      · rcases moved : files.entry? (sourceAbove ++ [sourceLast]) with - | entry
        · simp [moved, throw_eq_error] at rest
        · refine ⟨sourceAbove, sourceLast, above, last, entry, sourceLocated, located, moved, ?_⟩
          cases slash : target.endsInSlash with
          | true =>
              simp [moved, slash, throw_eq_error, error_bind] at rest
          | false =>
              refine ⟨rfl, ?_⟩
              rcases stands : files.entry? (above ++ [last]) with - | stored | -
              all_goals simp_all [throw_eq_error, pure_eq_ok]
      · cases rest
    · cases rest
  · rintro ⟨sourceAbove, sourceLast, above, last, entry, sourceLocated, located, moved, slash,
      noDirectory, rfl⟩
    refine ⟨_, sourceLocated, ?_⟩
    rw [bind_eq_ok_iff]
    refine ⟨_, located, ?_⟩
    rcases stands : files.entry? (above ++ [last]) with - | stored | -
    all_goals simp_all [pure_eq_ok]

theorem remove_of_file {path : FilePath} {above : Place} {last : String} {content : Bytes}
    (located : files.locate path = .ok (.name above last))
    (stands : files.entry? (above ++ [last]) = some (.file content)) :
    files.remove path = files.erase (above ++ [last]) := by
  simp [remove, located, stands]

/-- A file with this content stands at a place. -/
def HasFile (files : FileSystem) (place : Place) (content : Bytes) : Prop :=
  files.entry? place = some (.file content)

/-! ## Sound file systems -/

/-- Everything stands in a directory, and the working directory is one. -/
structure Sound (files : FileSystem) : Prop where
  wellFormed : files.WellFormed
  standing : files.entry? files.workingDirectory = some .directory

theorem Sound.above_of_locate (sound : files.Sound) {path : FilePath} {target : Target}
    (located : files.locate path = .ok target) : files.entry? target.above = some .directory := by
  obtain ⟨-, -, walked⟩ := locate_eq_ok_iff.1 located
  refine sound.wellFormed.above_of_walk ?_ walked
  unfold FilePath.start
  split
  · rfl
  · exact sound.standing

theorem Sound.put (sound : files.Sound) {above : Place} {last : String} {entry : Entry}
    (standing : files.entry? above = some .directory)
    (kept : ∀ place, files.entry? place = some .directory →
      entry? (files.put (above ++ [last]) entry) place = some .directory) :
    (files.put (above ++ [last]) entry).Sound := by
  refine ⟨?_, kept _ sound.standing⟩
  intro row member
  apply kept
  rcases List.mem_cons.1 member with rfl | old
  · rwa [List.dropLast_concat]
  · exact sound.wellFormed row (List.mem_filter.1 old).1

theorem Sound.erase (sound : files.Sound) {place : Place}
    (kept : ∀ other, files.entry? other = some .directory →
      entry? (files.erase place) other = some .directory) : (files.erase place).Sound := by
  refine ⟨?_, kept _ sound.standing⟩
  intro row member
  exact kept _ (sound.wellFormed row (List.mem_filter.1 member).1)

/-! ## Changes -/

/-- What changes at most: files come and go at some places, and directories are made where nothing
stood at others. -/
structure Changes (made written : Place → Prop) (before after : FileSystem) : Prop where
  workingDirectory : after.workingDirectory = before.workingDirectory
  directories : ∀ place,
    before.entry? place = some .directory → after.entry? place = some .directory
  others : ∀ place, ¬ written place → after.entry? place = before.entry? place ∨
    (made place ∧ before.entry? place = none ∧ after.entry? place = some .directory)
  sound : before.Sound → after.Sound

/-- No place. -/
def nowhere (_ : Place) : Prop := False

namespace Changes

theorem refl (files : FileSystem) : Changes made written files files :=
  ⟨rfl, fun _ directory => directory, fun _ _ => .inl rfl, id⟩

theorem trans (first : Changes made written before middle)
    (second : Changes made written middle after) : Changes made written before after := by
  refine ⟨second.workingDirectory.trans first.workingDirectory, ?_, ?_,
    second.sound ∘ first.sound⟩
  · intro place directory
    exact second.directories place (first.directories place directory)
  · intro place spared
    rcases first.others place spared with same | ⟨here, nothing, directory⟩
    · rw [← same]
      exact second.others place spared
    · exact .inr ⟨here, nothing, second.directories place directory⟩

theorem mono {made' written' : Place → Prop} (changes : Changes made written before after)
    (more : ∀ place, made place → made' place) (further : ∀ place, written place → written' place) :
    Changes made' written' before after := by
  refine ⟨changes.workingDirectory, changes.directories, ?_, changes.sound⟩
  intro place spared
  rcases changes.others place (spared ∘ further place) with same | ⟨here, nothing, directory⟩
  · exact .inl same
  · exact .inr ⟨more place here, nothing, directory⟩

variable {path : FilePath} {above : Place} {last : String} {content : Bytes}

theorem of_put_directory (located : files.locate path = .ok (.name above last))
    (nothing : files.entry? (above ++ [last]) = none)
    (here : made (path.place files.workingDirectory)) :
    Changes made written files (files.put (above ++ [last]) .directory) := by
  have kept : ∀ place, files.entry? place = some .directory →
      entry? (files.put (above ++ [last]) .directory) place = some .directory := by
    intro place directory
    by_cases same : place = above ++ [last]
    · rw [same, entry?_put_self]
    · rw [entry?_put_of_ne same, directory]
  refine ⟨rfl, kept, ?_, fun sound => sound.put (sound.above_of_locate located) kept⟩
  intro place _
  by_cases same : place = above ++ [last]
  · rw [same]
    rw [← place_of_locate located] at here
    exact .inr ⟨here, nothing, entry?_put_self _ _ _⟩
  · exact .inl (entry?_put_of_ne same _)

theorem of_put_file (located : files.locate path = .ok (.name above last))
    (noDirectory : files.entry? (above ++ [last]) ≠ some .directory)
    (here : written (path.place files.workingDirectory)) :
    Changes made written files (files.put (above ++ [last]) (.file content)) := by
  have kept : ∀ place, files.entry? place = some .directory →
      entry? (files.put (above ++ [last]) (.file content)) place = some .directory := by
    intro place directory
    have other : place ≠ above ++ [last] := by
      rintro rfl
      exact noDirectory directory
    rw [entry?_put_of_ne other, directory]
  refine ⟨rfl, kept, ?_, fun sound => sound.put (sound.above_of_locate located) kept⟩
  intro place spared
  have other : place ≠ above ++ [last] := by
    rintro rfl
    rw [← place_of_locate located] at here
    exact spared here
  exact .inl (entry?_put_of_ne other _)

theorem of_erase_file (located : files.locate path = .ok (.name above last))
    (stands : files.entry? (above ++ [last]) = some (.file content))
    (here : written (path.place files.workingDirectory)) :
    Changes made written files (files.erase (above ++ [last])) := by
  have kept : ∀ place, files.entry? place = some .directory →
      entry? (files.erase (above ++ [last])) place = some .directory := by
    intro place directory
    have other : place ≠ above ++ [last] := by
      rintro rfl
      rw [stands] at directory
      cases directory
    rw [entry?_erase_of_ne other, directory]
  refine ⟨rfl, kept, ?_, fun sound => sound.erase kept⟩
  intro place spared
  have other : place ≠ above ++ [last] := by
    rintro rfl
    rw [← place_of_locate located] at here
    exact spared here
  exact .inl (entry?_erase_of_ne other)

/-! ### Paths after a change -/

theorem start (changes : Changes made written before after) (path : FilePath) :
    path.start after.workingDirectory = path.start before.workingDirectory := by
  rw [changes.workingDirectory]

theorem place (changes : Changes made written before after) (path : FilePath) :
    path.place after.workingDirectory = path.place before.workingDirectory := by
  rw [changes.workingDirectory]

theorem locate (changes : Changes made written before after) {path : FilePath} {target : Target}
    (h : before.locate path = .ok target) : after.locate path = .ok target := by
  obtain ⟨nul, named, walked⟩ := locate_eq_ok_iff.1 h
  rw [← changes.start] at walked
  exact locate_eq_ok_iff.2 ⟨nul, named, walk_of_directories changes.directories walked⟩

theorem find (changes : Changes made written before after) {path : FilePath} {entry : Entry}
    (same : after.entry? (path.place before.workingDirectory) =
      before.entry? (path.place before.workingDirectory))
    (h : before.find path = .ok entry) : after.find path = .ok entry := by
  rw [find_eq_ok_iff] at h ⊢
  rcases h with ⟨directory, found, located⟩ | ⟨above, last, located, stands, slash⟩
  · exact .inl ⟨directory, found, changes.locate located⟩
  · rw [← place_of_locate located] at same
    exact .inr ⟨above, last, changes.locate located, same.trans stands, slash⟩

theorem file_iff (changes : Changes made written before after) {place : Place}
    (unwritten : ¬ written place) :
    after.HasFile place content ↔ before.HasFile place content := by
  unfold HasFile
  rcases changes.others place unwritten with same | ⟨-, nothing, directory⟩
  · rw [same]
  · simp [nothing, directory]

theorem read (changes : Changes made written before after)
    (unwritten : ¬ written (path.place before.workingDirectory))
    (h : before.read path = .ok content) : after.read path = .ok content := by
  rw [read_eq_ok_iff, find_eq_ok_iff] at h ⊢
  rcases h with ⟨directory, -⟩ | ⟨above, last, located, stands, slash⟩
  · cases directory
  · rw [← place_of_locate located] at unwritten
    exact .inr ⟨above, last, changes.locate located, (changes.file_iff unwritten).2 stands, slash⟩

theorem locate_back (changes : Changes made written before after) {path : FilePath}
    {target : Target} (noUp : ".." ∉ path.names) (h : after.locate path = .ok target)
    (entered : ∀ directory, directory <+: target.above →
      (path.start before.workingDirectory).length < directory.length →
      before.entry? directory = some .directory) : before.locate path = .ok target := by
  obtain ⟨nul, named, walked⟩ := locate_eq_ok_iff.1 h
  rw [changes.start] at walked
  exact locate_eq_ok_iff.2 ⟨nul, named, walk_of_entered noUp walked entered⟩

/-- What a path leads to afterwards it led to before, unless it stands at a place that changed. -/
theorem find_back (changes : Changes made written before after) (wellFormed : before.WellFormed)
    {path : FilePath} {entry : Entry} (noUp : ".." ∉ path.names)
    (same : after.entry? (path.place before.workingDirectory) =
      before.entry? (path.place before.workingDirectory))
    (h : after.find path = .ok entry) : before.find path = .ok entry := by
  rw [find_eq_ok_iff] at h ⊢
  rcases h with ⟨directory, found, located⟩ | ⟨above, last, located, stands, slash⟩
  · have foundAt : found = path.place before.workingDirectory := by
      rw [← changes.place]
      exact place_of_locate located
    rw [← foundAt] at same
    refine .inl ⟨directory, found, changes.locate_back noUp located ?_⟩
    intro step isPrefix deeper
    -- No entry is looked up at the end of such a path, only on its way.
    obtain ⟨-, -, walked⟩ := locate_eq_ok_iff.1 located
    rcases entry?_of_walk_directory noUp walked with rfl | stands
    · rw [changes.start] at isPrefix
      exact absurd isPrefix.length_le (Nat.not_le.2 deeper)
    · exact wellFormed.ancestor_of_directory (same.symm.trans stands) isPrefix
  · have foundAt : above ++ [last] = path.place before.workingDirectory := by
      rw [← changes.place]
      exact place_of_locate located
    rw [← foundAt] at same
    have stood : before.entry? (above ++ [last]) = some entry := same.symm.trans stands
    refine .inr ⟨above, last, changes.locate_back noUp located ?_, stood, slash⟩
    intro step isPrefix _
    exact wellFormed.ancestor_of_directory (wellFormed.parent stood) isPrefix

end Changes

/-! ## Files that are written, moved and removed -/

variable {temporary target : FilePath} {content : Bytes}

theorem changes_of_write (h : files.write temporary content = .ok after) :
    Changes made (· = temporary.place files.workingDirectory) files after := by
  obtain ⟨above, last, located, -, noDirectory, rfl⟩ := write_eq_ok_iff.1 h
  exact .of_put_file located noDirectory rfl

theorem read_of_write (h : files.write temporary content = .ok after) :
    after.read temporary = .ok content := by
  have changes : Changes nowhere _ files after := changes_of_write h
  obtain ⟨above, last, located, slash, -, rfl⟩ := write_eq_ok_iff.1 h
  refine read_eq_ok_iff.2 (find_eq_ok_iff.2 (.inr ?_))
  exact ⟨above, last, changes.locate located, entry?_put_self _ _ _, by simp [slash]⟩

theorem locate_of_read {path : FilePath} (h : files.read path = .ok content) :
    ∃ above last, files.locate path = .ok (.name above last) ∧
      files.entry? (above ++ [last]) = some (.file content) := by
  rcases find_eq_ok_iff.1 (read_eq_ok_iff.1 h) with
    ⟨directory, -⟩ | ⟨above, last, located, stands, -⟩
  · cases directory
  · exact ⟨above, last, located, stands⟩

theorem changes_of_remove (waiting : files.read temporary = .ok content) :
    Changes made (· = temporary.place files.workingDirectory) files (files.remove temporary) := by
  obtain ⟨above, last, located, stands⟩ := locate_of_read waiting
  rw [remove_of_file located stands]
  exact .of_erase_file located stands rfl

theorem find_of_remove (waiting : files.read temporary = .ok content) :
    (files.remove temporary).find temporary = .error .notFound := by
  have changes : Changes nowhere _ files (files.remove temporary) := changes_of_remove waiting
  obtain ⟨above, last, located, stands⟩ := locate_of_read waiting
  apply find_eq_notFound (changes.locate located)
  rw [remove_of_file located stands]
  exact entry?_erase_self _ _

theorem rename_of_read (waiting : files.read temporary = .ok content)
    (h : files.rename temporary target = .ok after) :
    ∃ sourceAbove sourceLast above last,
      files.locate temporary = .ok (.name sourceAbove sourceLast) ∧
      files.locate target = .ok (.name above last) ∧
      files.entry? (sourceAbove ++ [sourceLast]) = some (.file content) ∧
      target.endsInSlash = false ∧ files.entry? (above ++ [last]) ≠ some .directory ∧
      after = (files.erase (sourceAbove ++ [sourceLast])).put (above ++ [last]) (.file content) := by
  obtain ⟨sourceAbove, sourceLast, above, last, entry, sourceLocated, located, moved, slash,
    noDirectory, rfl⟩ := rename_eq_ok_iff.1 h
  obtain ⟨waitingAbove, waitingLast, waitingLocated, stands⟩ := locate_of_read waiting
  rw [sourceLocated] at waitingLocated
  cases waitingLocated
  rw [moved] at stands
  cases stands
  exact ⟨sourceAbove, sourceLast, above, last, sourceLocated, located, moved, slash, noDirectory,
    rfl⟩

theorem changes_of_rename (waiting : files.read temporary = .ok content)
    (h : files.rename temporary target = .ok after) :
    Changes made (fun place => place = temporary.place files.workingDirectory ∨
      place = target.place files.workingDirectory) files after := by
  obtain ⟨sourceAbove, sourceLast, above, last, sourceLocated, located, moved, -, noDirectory,
    rfl⟩ := rename_of_read waiting h
  have taken : Changes made (fun place => place = temporary.place files.workingDirectory ∨
      place = target.place files.workingDirectory) files
        (files.erase (sourceAbove ++ [sourceLast])) :=
    .of_erase_file sourceLocated moved (.inl rfl)
  refine taken.trans (.of_put_file (taken.locate located) ?_ (.inr rfl))
  -- Both paths may lead to one place, at which nothing is left then.
  by_cases same : above ++ [last] = sourceAbove ++ [sourceLast]
  · simp [same, entry?_erase_self]
  · rwa [entry?_erase_of_ne same]

theorem read_of_rename (waiting : files.read temporary = .ok content)
    (h : files.rename temporary target = .ok after) : after.read target = .ok content := by
  have changes : Changes nowhere _ files after := changes_of_rename waiting h
  obtain ⟨sourceAbove, sourceLast, above, last, -, located, -, slash, -, rfl⟩ :=
    rename_of_read waiting h
  refine read_eq_ok_iff.2 (find_eq_ok_iff.2 (.inr ?_))
  exact ⟨above, last, changes.locate located, entry?_put_self _ _ _, by simp [slash]⟩

theorem find_of_rename (waiting : files.read temporary = .ok content)
    (h : files.rename temporary target = .ok after)
    (apart : target.place files.workingDirectory ≠ temporary.place files.workingDirectory) :
    after.find temporary = .error .notFound := by
  have changes : Changes nowhere _ files after := changes_of_rename waiting h
  obtain ⟨sourceAbove, sourceLast, above, last, sourceLocated, located, -, -, -, rfl⟩ :=
    rename_of_read waiting h
  apply find_eq_notFound (changes.locate sourceLocated)
  rw [← place_of_locate sourceLocated, ← place_of_locate located] at apart
  have other : sourceAbove ++ [sourceLast] ≠ above ++ [last] := Ne.symm apart
  rw [entry?_put_of_ne other]
  exact entry?_erase_self _ _

theorem write_of_write {path : FilePath} (h : files.write path content = .ok after)
    (other : Bytes) : ∃ after', files.write path other = .ok after' := by
  obtain ⟨above, last, located, slash, noDirectory, -⟩ := write_eq_ok_iff.1 h
  exact ⟨_, write_eq_ok_iff.2 ⟨above, last, located, slash, noDirectory, rfl⟩⟩

end FileSystem

end LogicTree
