/-
**What a written file leaves as it was.**

* `Directory.LeadsTo` — the folder and the name in it that a path leads to, whether or not there is
  a file.
* `Directory.read_eq_ok_iff`, `write_eq_ok_iff` — a file is read from there and written to there.
* `Directory.isFolder_replace` — a written file neither makes nor removes a folder, so that every
  path leads to where it led before.
* `Directory.read_of_write`, `read_of_write_of_ne` — a written file is read back, and every file
  with another name is read as before.
* `Path.fileName?_of_leadsTo` — the name that a path leads to is the one that has its extension.
-/

import Asm16.CommandLine.Directory
import Asm16.Proofs.Pointwise

namespace Asm16

namespace Directory

variable {directory : Directory} {path : Path} {folder : Location} {name : List UInt8}

/-! ### Where paths lead to -/

/-- The names of a path lead to a folder and a name in it that no other folder has. -/
structure LeadsTo (directory : Directory) (path : Path) (folder : Location)
    (name : List UInt8) : Prop where
  short : path.bytes.length ≤ pathLimit
  last : path.names.getLast? = some name
  walked : path.names.dropLast.foldlM directory.enter path.start = .ok folder
  below : name ≠ Path.here ∧ name ≠ Path.above
  shortName : name.length ≤ nameLimit
  noFolder : directory.isFolder (folder ++ [name]) = false

theorem entry_of_below (below : name ≠ Path.here ∧ name ≠ Path.above) :
    folder.entry name = folder ++ [name] := by
  rw [Location.entry, if_neg below.1, if_neg below.2]

theorem approach_eq_ok_iff : directory.approach path = .ok (folder, name) ↔
    path.bytes.length ≤ pathLimit ∧ path.names.getLast? = some name ∧
      path.names.dropLast.foldlM directory.enter path.start = .ok folder ∧
      name ≠ Path.here ∧ name ≠ Path.above := by
  unfold approach
  by_cases long : pathLimit < path.bytes.length
  · rw [if_pos long]
    exact ⟨nofun, fun ⟨short, _⟩ => absurd long (Nat.not_lt.mpr short)⟩
  · rw [if_neg long]
    cases path.names.getLast? with
    | none => cases path.isAbsolute <;> simp
    | some last =>
      cases walked : path.names.dropLast.foldlM directory.enter path.start with
      | error error => simp
      | ok reached =>
        by_cases special : last = Path.here ∨ last = Path.above
        · simp only [if_pos special, Option.some.injEq, reduceCtorEq, false_iff]
          rintro ⟨-, rfl, -, here, above⟩
          exact special.elim here above
        · simp only [if_neg special, Except.ok.injEq, Prod.mk.injEq, Option.some.injEq]
          rw [not_or] at special
          constructor
          · rintro ⟨rfl, rfl⟩
            exact ⟨Nat.not_lt.mp long, rfl, rfl, special⟩
          · rintro ⟨-, rfl, rfl, -⟩
            exact ⟨rfl, rfl⟩

theorem locate_eq_ok_iff {location : Location} : directory.locate folder name = .ok location ↔
    name.length ≤ nameLimit ∧ directory.isFolder (folder.entry name) = false ∧
      folder.entry name = location := by
  unfold locate
  by_cases long : nameLimit < name.length
  · rw [if_pos long]
    exact ⟨nofun, fun ⟨short, _⟩ => absurd long (Nat.not_lt.mpr short)⟩
  · rw [if_neg long]
    cases isFolder : directory.isFolder (folder.entry name) with
    | true => simp
    | false => simp [Nat.not_lt.mp long]

/-- The folder and the name are those that reading and writing find. -/
theorem leadsTo_and_iff {location : Location} :
    directory.LeadsTo path folder name ∧ location = folder ++ [name] ↔
      directory.approach path = .ok (folder, name) ∧
        directory.locate folder name = .ok location := by
  rw [approach_eq_ok_iff, locate_eq_ok_iff]
  constructor
  · rintro ⟨leads, rfl⟩
    rw [entry_of_below leads.below]
    exact ⟨⟨leads.short, leads.last, leads.walked, leads.below⟩, leads.shortName, leads.noFolder,
      rfl⟩
  · rintro ⟨⟨short, last, walked, below⟩, shortName, noFolder, same⟩
    rw [entry_of_below below] at noFolder same
    exact ⟨⟨short, last, walked, below, shortName, noFolder⟩, same.symm⟩

/-- An access succeeds where the path leads to, and nowhere else. -/
theorem access_eq_ok_iff {α : Type} {access : Location → Except FileError α} {result : α} :
    (directory.approach path >>= fun reached =>
        directory.locate reached.1 reached.2 >>= access) = .ok result ↔
      ∃ folder name, directory.LeadsTo path folder name ∧
        access (folder ++ [name]) = .ok result := by
  constructor
  · intro succeeded
    obtain ⟨⟨folder, name⟩, approached, rest⟩ := Except.bind_eq_ok_iff.mp succeeded
    obtain ⟨location, located, accessed⟩ := Except.bind_eq_ok_iff.mp rest
    obtain ⟨leads, rfl⟩ := leadsTo_and_iff.mpr ⟨approached, located⟩
    exact ⟨folder, name, leads, accessed⟩
  · rintro ⟨folder, name, leads, accessed⟩
    obtain ⟨approached, located⟩ := leadsTo_and_iff.mp ⟨leads, rfl⟩
    exact Except.bind_eq_ok_iff.mpr ⟨_, approached,
      Except.bind_eq_ok_iff.mpr ⟨_, located, accessed⟩⟩

/-- A file is read where its path leads to. -/
theorem read_eq_ok_iff {content : ByteArray} : directory.read path = .ok content ↔
    ∃ folder name, directory.LeadsTo path folder name ∧
      directory.lookup (folder ++ [name]) = some content ∧ path.endsInSlash = false := by
  refine access_eq_ok_iff.trans (exists_congr fun folder => exists_congr fun name =>
    and_congr_right fun _ => ?_)
  cases directory.lookup (folder ++ [name]) with
  | none => simp
  | some found => cases path.endsInSlash <;> simp

/-- The directory with a file at a location in the place of the one there was. -/
def replace (directory : Directory) (location : Location) (content : ByteArray) : Directory :=
  { directory with files := directory.files.filter (·.1 != location) ++ [(location, content)] }

/-- A file is written where its path leads to. -/
theorem write_eq_ok_iff {content : ByteArray} {later : Directory} :
    directory.write path content = .ok later ↔
      ∃ folder name, directory.LeadsTo path folder name ∧ path.endsInSlash = false ∧
        later = directory.replace (folder ++ [name]) content := by
  cases slash : path.endsInSlash with
  | true =>
    have refused : directory.write path content ≠ .ok later := by
      intro written
      obtain ⟨reached, -, rest⟩ := Except.bind_eq_ok_iff.mp written
      simp only [slash, if_true] at rest
      cases rest
    simpa using refused
  | false =>
    have unslashed : directory.write path content =
        directory.approach path >>= fun reached =>
          directory.locate reached.1 reached.2 >>= fun location =>
            .ok (directory.replace location content) := by
      rw [write, slash]
      rfl
    rw [unslashed, access_eq_ok_iff]
    simp [eq_comm]

/-! ### Folders -/

theorem isFolder_iff {location : Location} : directory.isFolder location = true ↔
    location = .root ∨ location.isAbove = true ∨
      (∃ folder ∈ directory.folders, location <+: folder) ∨
      ∃ file ∈ directory.files, location <+: file.1 ∧ location ≠ file.1 := by
  simp [isFolder, or_assoc]

/-- The folders on the way to a folder. -/
theorem isFolder_of_leading {outer inner : Location} (leading : outer <+: inner)
    (isFolder : directory.isFolder inner = true) : directory.isFolder outer = true := by
  rw [isFolder_iff] at isFolder ⊢
  rcases isFolder with root | above | ⟨folder, member, within⟩ | ⟨file, member, within, apart⟩
  · rw [root] at leading
    rcases List.prefix_cons_iff.mp leading with rfl | ⟨rest, rfl, none⟩
    · exact .inr (.inl rfl)
    · obtain rfl := List.prefix_nil.mp none
      exact .inl rfl
  · rw [Location.isAbove, List.all_eq_true] at above
    exact .inr (.inl (List.all_eq_true.mpr fun name member => above name (leading.subset member)))
  · exact .inr (.inr (.inl ⟨folder, member, leading.trans within⟩))
  · refine .inr (.inr (.inr ⟨file, member, leading.trans within, ?_⟩))
    rintro rfl
    exact apart (within.eq_of_length_le leading.length_le)

theorem enter_eq_ok_iff {inner : Location} : directory.enter folder name = .ok inner ↔
    name.length ≤ nameLimit ∧ directory.isFolder (folder.entry name) = true ∧
      folder.entry name = inner := by
  unfold enter
  by_cases long : nameLimit < name.length
  · rw [if_pos long]
    exact ⟨nofun, fun ⟨short, _⟩ => absurd long (Nat.not_lt.mpr short)⟩
  · rw [if_neg long]
    cases isFolder : directory.isFolder (folder.entry name) with
    | true => simp [Nat.not_lt.mp long]
    | false => cases (directory.lookup (folder.entry name)).isSome <;> simp

/-- Names that are entered lead from folders to folders. -/
theorem isFolder_of_foldlM {names : List (List UInt8)} {start : Location}
    (walked : names.foldlM directory.enter start = .ok folder)
    (isFolder : directory.isFolder start = true) : directory.isFolder folder = true := by
  induction names generalizing start with
  | nil =>
    cases walked
    exact isFolder
  | cons name rest ih =>
    obtain ⟨inner, entered, remaining⟩ := Except.bind_eq_ok_iff.mp walked
    obtain ⟨-, inside, rfl⟩ := enter_eq_ok_iff.mp entered
    exact ih remaining inside

theorem LeadsTo.isFolder (leads : directory.LeadsTo path folder name) :
    directory.isFolder folder = true := by
  refine isFolder_of_foldlM leads.walked ?_
  unfold Path.start
  split <;> rfl

/-- Paths lead to the same places in directories with the same folders. -/
theorem LeadsTo.congr {other : Directory} (leads : directory.LeadsTo path folder name)
    (same : ∀ location, other.isFolder location = directory.isFolder location) :
    other.LeadsTo path folder name := by
  have walk (names : List (List UInt8)) (start reached : Location) :
      names.foldlM directory.enter start = .ok reached →
        names.foldlM other.enter start = .ok reached := by
    induction names generalizing start with
    | nil => exact id
    | cons name rest ih =>
      intro walked
      obtain ⟨inner, entered, remaining⟩ := Except.bind_eq_ok_iff.mp walked
      refine Except.bind_eq_ok_iff.mpr ⟨inner, ?_, ih _ remaining⟩
      rw [enter_eq_ok_iff] at entered ⊢
      rw [same]
      exact entered
  exact ⟨leads.short, leads.last, walk _ _ _ leads.walked, leads.below, leads.shortName,
    (same _).trans leads.noFolder⟩

/-! ### Writing a file -/

/-- A file in a folder neither makes nor removes a folder. -/
theorem isFolder_replace (isFolder : directory.isFolder folder = true) (content : ByteArray)
    (location : Location) :
    (directory.replace (folder ++ [name]) content).isFolder location =
      directory.isFolder location := by
  rw [Bool.eq_iff_iff, isFolder_iff, isFolder_iff]
  constructor
  · rintro (root | above | ⟨inner, member, within⟩ | ⟨file, member, within, apart⟩)
    · exact .inl root
    · exact .inr (.inl above)
    · exact .inr (.inr (.inl ⟨inner, member, within⟩))
    · rcases List.mem_append.mp member with kept | written
      · exact .inr (.inr (.inr ⟨file, (List.mem_filter.mp kept).1, within, apart⟩))
      · obtain rfl := List.mem_singleton.mp written
        -- What is on the way to the new file is on the way to its folder, and a folder already.
        rcases List.prefix_concat_iff.mp within with same | leading
        · exact absurd same apart
        · exact isFolder_iff.mp (isFolder_of_leading leading isFolder)
  · rintro (root | above | ⟨inner, member, within⟩ | ⟨file, member, within, apart⟩)
    · exact .inl root
    · exact .inr (.inl above)
    · exact .inr (.inr (.inl ⟨inner, member, within⟩))
    · by_cases same : file.1 = folder ++ [name]
      · rw [same] at within apart
        exact .inr (.inr (.inr
          ⟨_, List.mem_append_right _ (List.mem_singleton.mpr rfl), within, apart⟩))
      · refine .inr (.inr (.inr
          ⟨file, List.mem_append_left _ (List.mem_filter.mpr ⟨member, ?_⟩), within, apart⟩))
        exact bne_iff_ne.mpr same

theorem lookup_replace (location : Location) (content : ByteArray) :
    (directory.replace location content).lookup location = some content := by
  have removed : (directory.files.filter (·.1 != location)).lookup location = none :=
    List.lookup_eq_none_iff.mpr fun file member => by
      rw [bne_comm]
      exact (List.mem_filter.mp member).2
  rw [lookup, replace, List.lookup_append, removed, Option.none_or, List.lookup_cons_self]

theorem lookup_replace_of_ne {location other : Location} (apart : other ≠ location)
    (content : ByteArray) :
    (directory.replace location content).lookup other = directory.lookup other := by
  have kept (files : List (Location × ByteArray)) :
      (files.filter (·.1 != location)).lookup other = files.lookup other := by
    induction files with
    | nil => rfl
    | cons file rest ih =>
      by_cases removed : file.1 = location
      · rw [List.filter_cons_of_neg (by simpa using removed), ih, List.lookup_cons,
          beq_false_of_ne (removed ▸ apart)]
      · rw [List.filter_cons_of_pos (by simpa using removed), List.lookup_cons, List.lookup_cons,
          ih]
  have last : [(location, content)].lookup other = none :=
    List.lookup_eq_none_iff.mpr (by simpa using apart)
  rw [lookup, lookup, replace, List.lookup_append, kept, last, Option.or_none]

/-- A later directory has the folders and the files of an earlier one, but for the file at a
location. -/
structure SameBut (location : Location) (earlier later : Directory) : Prop where
  folders : ∀ other, later.isFolder other = earlier.isFolder other
  files : ∀ other ≠ location, later.lookup other = earlier.lookup other

variable {later : Directory} {content : ByteArray}

/-- Writing changes nothing but the file that the path leads to. -/
theorem sameBut_of_write (written : directory.write path content = .ok later) :
    ∃ folder name, directory.LeadsTo path folder name ∧ path.endsInSlash = false ∧
      SameBut (folder ++ [name]) directory later ∧
      later.lookup (folder ++ [name]) = some content := by
  obtain ⟨folder, name, leads, slash, rfl⟩ := write_eq_ok_iff.mp written
  exact ⟨folder, name, leads, slash,
    ⟨isFolder_replace leads.isFolder content, fun _ apart => lookup_replace_of_ne apart content⟩,
    lookup_replace _ content⟩

/-- A written file is read back. -/
theorem read_of_write (written : directory.write path content = .ok later) :
    later.read path = .ok content := by
  obtain ⟨folder, name, leads, slash, same, found⟩ := sameBut_of_write written
  exact read_eq_ok_iff.mpr ⟨folder, name, leads.congr same.folders, found, slash⟩

end Directory

/-! ### The names of files -/

namespace Path

/-- A byte before the parts of a path does not empty the last one. -/
theorem exists_getLast?_addToParts {byte : UInt8} {parts : List (List UInt8)} {last : List UInt8}
    (final : parts.getLast? = some last) (nonempty : last ≠ []) :
    ∃ last, (addToParts byte parts).getLast? = some last ∧ last ≠ [] := by
  cases parts with
  | nil => cases final
  | cons part rest =>
    rw [addToParts]
    split
    · exact ⟨last, List.getLast?_cons_cons.trans final, nonempty⟩
    · cases rest with
      | nil => exact ⟨byte :: part, rfl, nofun⟩
      | cons next rest =>
        rw [List.getLast?_cons_cons] at final
        exact ⟨last, List.getLast?_cons_cons.trans final, nonempty⟩

/-- The last part of a path that does not end in a slash is not empty. -/
theorem exists_getLast?_parts (bytes : List UInt8) (nonempty : bytes ≠ [])
    (unslashed : bytes.getLast? ≠ some slash) :
    ∃ last, (parts ⟨bytes⟩).getLast? = some last ∧ last ≠ [] := by
  induction bytes with
  | nil => exact absurd rfl nonempty
  | cons byte rest ih =>
    cases rest with
    | nil =>
      have letter : byte ≠ slash := fun same => unslashed (congrArg some same)
      refine ⟨[byte], ?_, nofun⟩
      show (addToParts byte [[]]).getLast? = some [byte]
      rw [addToParts, if_neg letter]
      rfl
    | cons next rest =>
      rw [List.getLast?_cons_cons] at unslashed
      obtain ⟨last, final, nonempty⟩ := ih nofun unslashed
      exact exists_getLast?_addToParts final nonempty

/-- The name that a path leads to is the one that has its extension. -/
theorem fileName?_of_leadsTo {directory : Directory} {path : Path} {folder : Location}
    {name : List UInt8} (leads : directory.LeadsTo path folder name)
    (slash : path.endsInSlash = false) : path.fileName? = some name := by
  obtain ⟨bytes⟩ := path
  have nonempty : bytes ≠ [] := by
    rintro rfl
    cases leads.last
  obtain ⟨last, final, occupied⟩ := exists_getLast?_parts bytes nonempty (by
    simpa [endsInSlash] using slash)
  obtain ⟨earlier, split⟩ := List.getLast?_eq_some_iff.mp final
  have same : last = name := by
    have named := leads.last
    rw [names, split, List.filter_append, List.filter_cons_of_pos (by simpa using occupied),
      List.filter_nil, List.getLast?_concat] at named
    exact Option.some.inj named
  have busy : isIdle name = false := by
    rw [← same] at leads ⊢
    simp [isIdle, occupied, leads.below.1]
  rw [fileName?, leadingParts, split, same, List.reverse_concat,
    List.dropWhile_cons_of_neg (by simp [busy]), List.reverse_cons, List.reverse_reverse,
    List.getLast?_concat]
  simp [leads.below.2]

end Path

/-- A file with another name is read as before. -/
theorem Directory.read_of_write_of_ne {directory later : Directory} {path other : Path}
    {content kept : ByteArray} (written : directory.write path content = .ok later)
    (readable : directory.read other = .ok kept) (apart : other.fileName? ≠ path.fileName?) :
    later.read other = .ok kept := by
  obtain ⟨folder, name, leads, slash, same, -⟩ := sameBut_of_write written
  obtain ⟨folder', name', leads', found, slash'⟩ := read_eq_ok_iff.mp readable
  have different : folder' ++ [name'] ≠ folder ++ [name] := by
    intro equal
    obtain ⟨-, rfl⟩ := List.append_inj' equal rfl |>.imp_right (List.singleton_inj.mp)
    exact apart ((Path.fileName?_of_leadsTo leads' slash').trans
      (Path.fileName?_of_leadsTo leads slash).symm)
  exact read_eq_ok_iff.mpr ⟨folder', name', leads'.congr same.folders,
    (same.files _ different).trans found, slash'⟩

end Asm16
