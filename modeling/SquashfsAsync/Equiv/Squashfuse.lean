import SquashfsAsync.Squashfuse
import SquashfsAsync.Equiv.Image
import SquashfsAsync.Equiv.Metadata
import SquashfsAsync.Equiv.DirectoryTable

/-!
# The adaptor's inode numbers

`ino_to_fuse` sends the root inode to `FUSE_ROOT_ID`, the inode numbered 1 to `inode_extra`, and
every other number to itself; `ino_from_fuse` sends them back.  `inode_extra` is one past the
largest number of a file or a directory, so it is free among those numbers, but not among the
numbers of the other entries a directory lists.

* `fromReader_fuse_numbering`: on every image `SquashFs::from_reader` accepts, `ino_from_fuse`
  undoes `ino_to_fuse` on the numbers of the files and directories and on the root inode, and
  `ino_to_fuse` is injective there.  Every such number comes from a 4-byte header field
  (`InodeTable.ids_fromReader_lt`) and lies below `inode_extra` (`fromReader_keeps`).
* `fromReader_extra_collision`: an image whose root directory lists a directory numbered 1 and
  a symlink numbered `inode_extra`.  Both entries get the FUSE number `inode_extra`, and that
  number is read back as 1, so `readdir` lists two entries under one number.
* `fromReader_lookup_readdir`: for an entry of a listing that is a file or a directory of the
  inode table, the first of its name, the number `readdir` lists it under, the attributes
  `lookup` returns for its name and those `getattr` returns for that number agree.  The listings
  `from_reader` keeps are those of the directories of its inode table
  (`get?_readDirectoryTables`), so a listed directory goes to FUSE and back.
* `metadata_fuseErrors`: through `impl From<Error> for ErrorFuse`, a failed `getattr`,
  `readdir` or `lookup` answers `ENOENT`, `EINVAL` or `ENOSYS`, never `EIO`.
-/

namespace SquashfsAsync

namespace SquashFs

variable {env : Env}

theorem Run.mapErr_eq_ok {E E' α : Type} {f : E → E'} {x : Run E α} {a : α} :
    Run.mapErr f x = .ok a ↔ x = .ok a := by
  rcases x with (e | p) | a' <;> simp [Run.mapErr]

theorem fail_bind_ne_ok {E α β : Type} (e : E) (f : α → Run E β) (b : β) :
    (fail e >>= f) ≠ .ok b := nofun

/-- A check that passes: `if c { return Err(e) }` before `f`. -/
theorem ok_of_check {E β : Type} {c : Prop} [Decidable c] {e : E} {f : PUnit → Run E β} {b : β}
    (h : (if c then fail e >>= f else pure PUnit.unit >>= f) = .ok b) : ¬c ∧ f PUnit.unit = .ok b := by
  split at h
  · exact absurd h (fail_bind_ne_ok _ _ _)
  · exact ⟨‹_›, h⟩

theorem unwrap_eq_ok {E α : Type} {o : Option α} {a : α} :
    (unwrap o : Run E α) = .ok a ↔ o = some a := by
  cases o <;> simp [unwrap, panic]

/-- What `from_reader` keeps when it accepts an image: the number of readers of the options,
which is positive, the inode table it read, the listings of that table's directories, and one past
the table's largest number as `inode_extra`. -/
theorem fromReader_keeps {opts : Options} {image : Bytes} {fs : SquashFs}
    (h : fromReader env opts image = .ok fs) :
    0 < fs.nReaders ∧ (∃ sb, InodeTable.fromReader env sb image = .ok fs.inodeTable) ∧
      readDirectoryTables env fs.superblock fs.image fs.inodeTable.directories.entries =
        .ok fs.directoryTables ∧
      ∃ m, fs.inodeTable.ids.max? = some m ∧ fs.inodeExtra = m + 1 := by
  dsimp only [fromReader] at h
  -- the checks of the options
  obtain ⟨hr, h⟩ := ok_of_check h
  obtain ⟨_, -, h⟩ := Run.bind_eq_ok.mp h
  obtain ⟨_, -, h⟩ := Run.bind_eq_ok.mp h
  replace h := (ok_of_check h).2
  -- the superblock and the tables
  obtain ⟨sb, -, h⟩ := Run.bind_eq_ok.mp h
  obtain ⟨_, -, h⟩ := Run.bind_eq_ok.mp h
  obtain ⟨_, -, h⟩ := Run.bind_eq_ok.mp h
  obtain ⟨t, ht, h⟩ := Run.bind_eq_ok.mp h
  obtain ⟨_, -, h⟩ := Run.bind_eq_ok.mp h
  obtain ⟨_, hd, h⟩ := Run.bind_eq_ok.mp h
  -- the caches
  replace h := (ok_of_check h).2
  split at h
  on_goal 1 =>
    obtain ⟨_, -, h⟩ := Run.bind_eq_ok.mp h
    replace h := (ok_of_check h).2
  on_goal 2 => obtain ⟨_, -, h⟩ := Run.bind_eq_ok.mp h
  -- `inode_extra`
  all_goals
    obtain ⟨m, hm, h⟩ := Run.bind_eq_ok.mp h
    obtain ⟨e, he, h⟩ := Run.bind_eq_ok.mp h
    cases h
    exact ⟨Nat.pos_of_ne_zero hr, ⟨sb, Run.mapErr_eq_ok.mp ht⟩, hd, m, unwrap_eq_ok.mp hm,
      eq_of_addChecked he⟩

/-- Every file and directory number of an accepted image is below `inode_extra` and fits a
`u32`. -/
theorem fromReader_numbers {opts : Options} {image : Bytes} {fs : SquashFs}
    (h : fromReader env opts image = .ok fs) :
    ∀ k ∈ fs.inodes, k < fs.inodeExtra ∧ k < 2 ^ 32 := by
  obtain ⟨-, ⟨sb, ht⟩, -, m, hm, he⟩ := fromReader_keeps h
  intro k hk
  have hk' : k ∈ fs.inodeTable.ids := by
    simp only [inodes, InodeTable.ids, List.mem_append] at hk ⊢; tauto
  exact ⟨he ▸ Nat.lt_succ_of_le ((List.max?_eq_some_iff'.mp hm).2 k hk'),
    InodeTable.ids_fromReader_lt ht k hk'⟩

/-- With the file and directory numbers below `inode_extra` and within `u32`, `ino_from_fuse`
undoes `ino_to_fuse` on them and on the root inode. -/
theorem inoFromFuse_inoToFuse {fs : SquashFs}
    (hnum : ∀ k ∈ fs.inodes, k < fs.inodeExtra ∧ k < 2 ^ 32) {i : Nat}
    (hi : i ∈ fs.inodes ∨ i = fs.rootInode) : fs.inoFromFuse (fs.inoToFuse i) = .ok i := by
  by_cases hroot : i = fs.rootInode
  · -- the root is `FUSE_ROOT_ID`
    rw [inoToFuse, if_pos hroot, inoFromFuse, if_pos rfl, hroot]
  · have ⟨hlt, hfit⟩ := hnum i (hi.resolve_right hroot)
    by_cases hone : i = fuseRootId
    · -- the inode numbered 1 is `inode_extra`, which is not 1
      have hextra : fs.inodeExtra ≠ fuseRootId := by omega
      rw [inoToFuse, if_neg hroot, if_pos hone, inoFromFuse, if_neg hextra, if_pos rfl, hone]
    · -- any other number is itself, and not `inode_extra`
      rw [inoToFuse, if_neg hroot, if_neg hone, inoFromFuse, if_neg hone,
        if_neg (Nat.ne_of_lt hlt), if_pos hfit]

/-- **Numbering.**  On every image `from_reader` accepts, `ino_from_fuse` undoes `ino_to_fuse`
on the numbers of the files and directories and on the root inode, and `ino_to_fuse` is
injective on them. -/
theorem fromReader_fuse_numbering {opts : Options} {image : Bytes} {fs : SquashFs}
    (h : fromReader env opts image = .ok fs) :
    (∀ i, i ∈ fs.inodes ∨ i = fs.rootInode → fs.inoFromFuse (fs.inoToFuse i) = .ok i) ∧
      Set.InjOn fs.inoToFuse {i | i ∈ fs.inodes ∨ i = fs.rootInode} := by
  have hround := fun i (hi : i ∈ fs.inodes ∨ i = fs.rootInode) =>
    inoFromFuse_inoToFuse (fromReader_numbers h) hi
  refine ⟨hround, fun a ha b hb hab => ?_⟩
  have := (hround a ha).symm.trans (hab ▸ hround b hb)
  exact Except.ok.inj this

/-! ### Lookups and listings -/

/-- The listings `from_reader` reads: the listing of a directory number is that of its directory
inode in the table. -/
theorem get?_readDirectoryTables {sb : SuperBlock} {image : Bytes} :
    ∀ {l : List (Nat × DirectoryInode)} {m : BTreeMap DirectoryTable},
      readDirectoryTables env sb image l = .ok m → ∀ {k : Nat} {t : DirectoryTable},
        m.get? k = some t → ∃ dir, lookupKey k l = some dir ∧
          DirectoryTable.fromReaderDirectory env dir sb image = .ok t
  | [], _, h, _, _, ht => by cases h; simp at ht
  | (ino, dir) :: rest, m, h, k, t, ht => by
    obtain ⟨t₀, h₀, h⟩ := Run.bind_eq_ok.mp h
    obtain ⟨m', hm', h⟩ := Run.bind_eq_ok.mp h
    cases h
    rw [BTreeMap.get?_insert] at ht
    split_ifs at ht with hk
    · cases ht
      exact ⟨dir, by simp [lookupKey, hk], Run.mapErr_eq_ok.mp h₀⟩
    · obtain ⟨dir', hl, hd⟩ := get?_readDirectoryTables hm' ht
      exact ⟨dir', by simp [lookupKey, hk, hl], hd⟩

/-- `getattr_inode` of a file or a directory of the table: attributes under its FUSE number. -/
theorem mem_inodes_of_file {fs : SquashFs} {i : Nat} {f : FileInode}
    (h : fs.inodeTable.files.get? i = some f) : i ∈ fs.inodes :=
  List.mem_append_left _ ((BTreeMap.mem_keys_iff _ _).mpr (by rw [h]; rfl))

theorem mem_inodes_of_directory {fs : SquashFs} {i : Nat} {d : DirectoryInode}
    (h : fs.inodeTable.directories.get? i = some d) : i ∈ fs.inodes :=
  List.mem_append_right _ ((BTreeMap.mem_keys_iff _ _).mpr (by rw [h]; rfl))

theorem getattrInode_of_mem {fs : SquashFs} {i : Nat} (hi : i ∈ fs.inodes) :
    ∃ a, fs.getattrInode i = .ok a ∧ a.ino = fs.inoToFuse i := by
  unfold getattrInode
  cases hf : fs.inodeTable.files.get? i with
  | some f => exact ⟨_, rfl, rfl⟩
  | none =>
    have hdir : (fs.inodeTable.directories.get? i).isSome := by
      simp only [inodes, List.mem_append, BTreeMap.mem_keys_iff, hf] at hi
      simpa using hi
    obtain ⟨dir, hdir⟩ := Option.isSome_iff_exists.mp hdir
    simp only [hdir]
    exact ⟨_, rfl, rfl⟩

/-- **Lookups agree with listings.**  On an image `from_reader` accepts, take the listing of a
directory and an entry of it, the first with its name, that is numbered as a file or a directory
of the inode table.  `readdir` of the directory's FUSE number lists the entry under a number,
`lookup` of its name in the directory gives attributes under that number, and `getattr` of that
number gives the same attributes. -/
theorem fromReader_lookup_readdir {opts : Options} {image : Bytes} {fs : SquashFs}
    (h : fromReader env opts image = .ok fs) {d : Nat} {t : DirectoryTable}
    (ht : fs.directoryTables.get? d = some t) {e : DirectoryTable.Entry}
    (he : t.entries.find? (fun x => x.name = e.name) = some e) (hi : e.inode ∈ fs.inodes)
    (hutf : utf8Valid e.name = true) :
    ∃ l a, fs.readdir (fs.inoToFuse d) 0 = .ok l ∧
      { DirEntry.ofEntry e with inode := fs.inoToFuse e.inode } ∈ l ∧
      fs.lookup env (fs.inoToFuse d) e.name = .ok a ∧ a.ino = fs.inoToFuse e.inode ∧
      fs.getattr (fs.inoToFuse e.inode) = .ok a := by
  obtain ⟨dir, hdir, hread⟩ := get?_readDirectoryTables (fromReader_keeps h).2.2.1 ht
  -- the directory is one of the table, so its number goes to FUSE and back
  have hd' := inoFromFuse_inoToFuse (fromReader_numbers h) (.inl (mem_inodes_of_directory hdir))
  have hi' := inoFromFuse_inoToFuse (fromReader_numbers h) (.inl hi)
  -- the listing is an `ofEntries`, whose `find` is the first entry of the name
  obtain ⟨es, rfl⟩ := DirectoryTable.fromReaderDirectory_ofEntries env hread
  have hfind : (DirectoryTable.ofEntries env es).find env e.name = .ok (some e) := by
    rw [← he]
    exact DirectoryTable.findIn_groupMap env es e.name [] es rfl
  obtain ⟨a, ha, hino⟩ := getattrInode_of_mem hi
  refine ⟨es.map fun x => { DirEntry.ofEntry x with inode := fs.inoToFuse x.inode }, a,
    ?_, ?_, ?_, hino, ?_⟩
  · simp only [readdir, hd', pure_bind, ht, List.drop_zero]
    rfl
  · exact List.mem_map_of_mem _ (by simpa using List.mem_of_find?_eq_some he)
  · simp only [lookup, hd', Run.ofExcept, ht, hutf, hfind, bind, Except.bind, pure, Except.pure,
      ha]
    rfl
  · simp only [getattr, hi', ha, bind, Except.bind]

/-! ### The answers FUSE gives -/

theorem inoFromFuse_error {fs : SquashFs} {n : Nat} {e : Error} (h : fs.inoFromFuse n = .error e) :
    e = .invalidInode := by
  unfold inoFromFuse at h
  split_ifs at h
  cases h
  rfl

theorem getattrInode_error {fs : SquashFs} {i : Nat} {e : Error}
    (h : fs.getattrInode i = .error e) : e = .directoryNotFound := by
  unfold getattrInode at h
  split at h
  · cases h
  · split at h <;> cases h
    rfl

/-- `getattr` fails on a number that fits no inode, or that numbers neither a file nor a
directory. -/
theorem getattr_fuseError {fs : SquashFs} {n : Nat} {e : Error} (h : fs.getattr n = .error e) :
    FuseError.ofError e = .noFileDir ∨ FuseError.ofError e = .invalidArgument := by
  obtain h | ⟨i, -, h⟩ := Run.bind_eq_error.mp h
  · exact .inr (by rw [inoFromFuse_error h]; rfl)
  · exact .inl (by rw [getattrInode_error h]; rfl)

/-- `readdir` fails, short of its panic, on a number without a listing. -/
theorem readdir_fuseError {fs : SquashFs} {n offset : Nat} {e : Error}
    (h : fs.readdir n offset = .error (.error e)) : FuseError.ofError e = .noFileDir := by
  unfold readdir at h
  dsimp only at h
  split at h
  · rw [pure_bind] at h
    split at h <;> cases h
    rfl
  · cases h

/-- `lookup` fails on a parent without a listing or a name it does not list, on a number that
fits no inode, and on a name that is not UTF-8. -/
theorem lookup_fuseError {fs : SquashFs} {parent : Nat} {name : Bytes} {e : Error}
    (h : fs.lookup env parent name = .error (.error e)) :
    FuseError.ofError e = .noFileDir ∨ FuseError.ofError e = .invalidArgument ∨
      FuseError.ofError e = .unimplemented := by
  unfold lookup at h
  obtain h | ⟨i, -, h⟩ := Run.bind_eq_error.mp h
  · obtain ⟨e', he', rfl⟩ := (Run.ofExcept_eq_error _ _ _).mp h
    exact .inr (.inl (by rw [id, inoFromFuse_error he']; rfl))
  split at h
  · dsimp only at h
    split_ifs at h
    · -- a name that is not UTF-8
      cases h
      exact .inr (.inr rfl)
    rw [pure_bind] at h
    split at h
    · rw [pure_bind] at h
      split at h
      · obtain ⟨e', he', rfl⟩ := (Run.ofExcept_eq_error _ _ _).mp h
        exact .inl (by rw [id, getattrInode_error he']; rfl)
      · cases h
        exact .inl rfl
    · cases h
  · cases h
    exact .inl rfl

/-- **No I/O error from the metadata calls.**  Short of a panic, FUSE answers a failed `getattr`,
`readdir` or `lookup` with `ENOENT` for a number without an inode or a listing and for a name
that is not listed, with `EINVAL` for a number that fits no inode, and with `ENOSYS` for a name
that is not UTF-8.  It never answers `EIO`. -/
theorem metadata_fuseErrors (fs : SquashFs) :
    (∀ n e, fs.getattr n = .error e →
      FuseError.ofError e = .noFileDir ∨ FuseError.ofError e = .invalidArgument) ∧
    (∀ n offset e, fs.readdir n offset = .error (.error e) → FuseError.ofError e = .noFileDir) ∧
    ∀ parent name e, fs.lookup env parent name = .error (.error e) →
      FuseError.ofError e = .noFileDir ∨ FuseError.ofError e = .invalidArgument ∨
        FuseError.ofError e = .unimplemented :=
  ⟨fun _ _ => getattr_fuseError, fun _ _ _ => readdir_fuseError, fun _ _ _ => lookup_fuseError⟩

end SquashFs

open InodeTable

/-- A root directory, numbered 2, that lists a directory numbered 1 and a symlink numbered 3;
the inode table holds the two directories and the symlink. -/
def collisionImage : Bytes :=
  SuperBlock.encode ⟨0x73717368, 3, 16, 0, .gzip, 0, 4, 0, ⟨32⟩, 219, 96, 187, 219, none⟩ ++
    MetadataBlock.encodeUncompressed
      ((InodeRecord.basicDirectory ⟨0, 0, 0, 0⟩ 1 ⟨2, 2, ⟨0, 0, 0⟩⟩).encode ++
        (InodeRecord.basicDirectory ⟨0, 0, 0, 0⟩ 2 ⟨3, 2, ⟨0, 0, 30⟩⟩).encode ++
        (InodeRecord.basicSymlink ⟨0, 0, 0, 0⟩ 3 1 [0x78]).encode) ++
    MetadataBlock.encodeUncompressed
      (leBytes 4 1 ++ leBytes 4 0 ++ leBytes 4 1 ++
        (leBytes 2 0 ++ leBytes 2 0 ++ leBytes 2 1 ++ leBytes 2 0 ++ [0x61]) ++
        (leBytes 2 0 ++ leBytes 2 2 ++ leBytes 2 3 ++ leBytes 2 0 ++ [0x62]))

set_option maxRecDepth 100000 in
/-- `from_reader` accepts `collisionImage`, with the directories 1 and 2, the root's listing of
1 and 3, and `inode_extra = 3`.  Both 1 and 3 go to the FUSE number 3, which goes back to 1, and
`readdir` of the root lists both entries under 3. -/
theorem fromReader_extra_collision :
    (SquashFs.fromReader MetadataBlock.envTwice ⟨0, 1, 0, by decide, by decide, by decide⟩
        collisionImage).map (fun fs => fs.inodeTable.directories.keys) = .ok [1, 2] ∧
      (SquashFs.fromReader MetadataBlock.envTwice ⟨0, 1, 0, by decide, by decide, by decide⟩
        collisionImage).map
        (fun fs => (fs.directoryTables.get? 2).map (·.entries.map (·.inode))) = .ok (some [1, 3]) ∧
      (SquashFs.fromReader MetadataBlock.envTwice ⟨0, 1, 0, by decide, by decide, by decide⟩
        collisionImage).map (fun fs => (fs.inoToFuse 1, fs.inoToFuse 3)) = .ok (3, 3) ∧
      (SquashFs.fromReader MetadataBlock.envTwice ⟨0, 1, 0, by decide, by decide, by decide⟩
        collisionImage).map (fun fs => fs.inoFromFuse 3) = .ok (.ok 1) ∧
      (SquashFs.fromReader MetadataBlock.envTwice ⟨0, 1, 0, by decide, by decide, by decide⟩
        collisionImage).map (fun fs => fs.readdir 1 0) =
        .ok (.ok [⟨3, [0x61], .directory⟩, ⟨3, [0x62], .regularFile⟩]) :=
  ⟨by decide, by decide, by decide, by decide, by decide⟩

set_option maxRecDepth 100000 in
theorem fromReader_fuse_numbering_collision :
    ∃ fs, SquashFs.fromReader MetadataBlock.envTwice ⟨0, 1, 0, by decide, by decide, by decide⟩
        collisionImage = .ok fs ∧
      (∀ i, i ∈ fs.inodes ∨ i = fs.rootInode → fs.inoFromFuse (fs.inoToFuse i) = .ok i) ∧
      Set.InjOn fs.inoToFuse {i | i ∈ fs.inodes ∨ i = fs.rootInode} := by
  cases h : SquashFs.fromReader MetadataBlock.envTwice ⟨0, 1, 0, by decide, by decide, by decide⟩
      collisionImage with
  | ok fs => exact ⟨fs, rfl, SquashFs.fromReader_fuse_numbering h⟩
  | error e =>
    have hok : (SquashFs.fromReader MetadataBlock.envTwice ⟨0, 1, 0, by decide, by decide, by decide⟩
        collisionImage).map (fun _ => ()) = .ok () := by decide
    rw [h] at hok
    cases hok

/-- The options `fromReader_extra_collision` opens `collisionImage` with: one reader, no
cache. -/
def collisionOptions : Options := ⟨0, 1, 0, by decide, by decide, by decide⟩

set_option maxRecDepth 100000 in
/-- The root of `collisionImage` lists a directory `a` numbered 1: `readdir`, `lookup` and
`getattr` agree on it. -/
theorem fromReader_lookup_readdir_collision :
    ∃ fs t, SquashFs.fromReader MetadataBlock.envTwice collisionOptions collisionImage = .ok fs ∧
      fs.directoryTables.get? 2 = some t ∧
      t.entries.find? (fun x => x.name = [0x61]) = some ⟨0, 1, .basicDirectory, [0x61]⟩ ∧
      1 ∈ fs.inodes ∧ utf8Valid [0x61] = true ∧
      ∃ l a, fs.readdir (fs.inoToFuse 2) 0 = .ok l ∧
        { DirEntry.ofEntry ⟨0, 1, .basicDirectory, [0x61]⟩ with inode := fs.inoToFuse 1 } ∈ l ∧
        fs.lookup MetadataBlock.envTwice (fs.inoToFuse 2) [0x61] = .ok a ∧
        a.ino = fs.inoToFuse 1 ∧ fs.getattr (fs.inoToFuse 1) = .ok a := by
  have hfacts : (SquashFs.fromReader MetadataBlock.envTwice collisionOptions collisionImage).map
      (fun fs => ((fs.directoryTables.get? 2).map
        fun t => t.entries.find? (fun x => x.name = [0x61]), decide (1 ∈ fs.inodes))) =
      .ok (some (some ⟨0, 1, .basicDirectory, [0x61]⟩), true) := by decide
  cases h : SquashFs.fromReader MetadataBlock.envTwice collisionOptions collisionImage with
  | error e => rw [h] at hfacts; cases hfacts
  | ok fs =>
    rw [h] at hfacts
    cases ht : fs.directoryTables.get? 2 with
    | none => simp [Except.map, ht] at hfacts
    | some t =>
      simp only [Except.map, ht, Option.map_some', Except.ok.injEq, Prod.mk.injEq,
        Option.some.injEq, decide_eq_true_eq] at hfacts
      exact ⟨fs, t, rfl, ht, hfacts.1, hfacts.2, by decide,
        SquashFs.fromReader_lookup_readdir (e := ⟨0, 1, .basicDirectory, [0x61]⟩) h ht hfacts.1
          hfacts.2 (by decide)⟩

set_option maxRecDepth 100000 in
/-- On `collisionImage`, with `inode_extra = 3`: `getattr` of 4, which numbers no inode, and of
`2^32`, which fits none, `readdir` of 4, which has no listing, and `lookup` of `z` in the root
fail, and FUSE answers `ENOENT`, `EINVAL`, `ENOENT` and `ENOENT`. -/
theorem metadata_fuseErrors_collision :
    ∃ fs, SquashFs.fromReader MetadataBlock.envTwice collisionOptions collisionImage = .ok fs ∧
      fs.getattr 4 = .error .directoryNotFound ∧
      (FuseError.ofError .directoryNotFound = .noFileDir ∨
        FuseError.ofError .directoryNotFound = .invalidArgument) ∧
      fs.getattr (2 ^ 32) = .error .invalidInode ∧
      (FuseError.ofError .invalidInode = .noFileDir ∨
        FuseError.ofError .invalidInode = .invalidArgument) ∧
      fs.readdir 4 0 = .error (.error .directoryNotFound) ∧
      FuseError.ofError .directoryNotFound = .noFileDir ∧
      fs.lookup MetadataBlock.envTwice 1 [0x7a] = .error (.error (.fileNotFound (some [0x7a]))) ∧
      (FuseError.ofError (.fileNotFound (some [0x7a])) = .noFileDir ∨
        FuseError.ofError (.fileNotFound (some [0x7a])) = .invalidArgument ∨
        FuseError.ofError (.fileNotFound (some [0x7a])) = .unimplemented) := by
  have hfacts : (SquashFs.fromReader MetadataBlock.envTwice collisionOptions collisionImage).map
      (fun fs => (decide (fs.getattr 4 = .error .directoryNotFound),
        decide (fs.getattr (2 ^ 32) = .error .invalidInode),
        decide (fs.readdir 4 0 = .error (.error .directoryNotFound)),
        decide (fs.lookup MetadataBlock.envTwice 1 [0x7a] =
          .error (.error (.fileNotFound (some [0x7a])))))) = .ok (true, true, true, true) := by
    decide
  cases h : SquashFs.fromReader MetadataBlock.envTwice collisionOptions collisionImage with
  | error e => rw [h] at hfacts; cases hfacts
  | ok fs =>
    rw [h] at hfacts
    simp only [Except.map, Except.ok.injEq, Prod.mk.injEq, decide_eq_true_eq] at hfacts
    obtain ⟨h₁, h₂, h₃, h₄⟩ := hfacts
    have hfuse := @SquashFs.metadata_fuseErrors MetadataBlock.envTwice fs
    exact ⟨fs, rfl, h₁, hfuse.1 _ _ h₁, h₂, hfuse.1 _ _ h₂, h₃, hfuse.2.1 _ _ _ h₃, h₄,
      hfuse.2.2 _ _ _ h₄⟩

end SquashfsAsync
