import SquashfsAsync.Equiv.Termination
import SquashfsAsync.Equiv.Squashfuse

/-!
# A FUSE read, end to end

`Filesystem::read` takes the inode back from its FUSE number (`ino_from_fuse`), the flags from the
file handle, and calls `read_file`, which runs among the reads in flight.

* `SquashFs.read_ok`: with a FUSE number that goes back to an inode, an open handle and an
  offset that is a nonnegative `i64`, `read` makes the arguments of `read_file` from them.
* `SquashFs.fromReader_read_content`: on every image `from_reader` accepts whose block references
  agree, a read of a readable file under the FUSE number `ino_to_fuse` gave it, through an open
  handle, started in any state that any interleaving of reads reaches, is ended by some schedule
  of the reads in flight.  It records `InvalidOffset` past the end of the file, and otherwise
  the requested bytes of its content.  The numbers come back by `fromReader_numbers`, the pools
  lend a reader since `from_reader` refuses zero readers (`fromReader_keeps`), and the rest is
  `System.run_all_end` with `finished_of_reachable`.
-/

namespace SquashfsAsync

namespace SquashFs

open System

variable {env : Env}

/-- `read` turns a FUSE number that goes back to `i`, an open handle and an offset below `2^64`
into the call `read_file(i, offset, size, flags)`. -/
theorem read_ok (fs : SquashFs) {handles : Handles} {fh : Nat} {flags : ReadFlags}
    (hfh : handles.get? fh = some flags) {n i : Nat} (hi : fs.inoFromFuse n = .ok i)
    {offset : Nat} (hoff : offset < 2 ^ 64) (size : Nat) :
    fs.read handles n fh offset size = .ok ⟨i, offset, size, flags⟩ := by
  simp only [SquashFs.read, Run.ofExcept, hi, Handles.flags, hfh]
  show Except.ok _ = _
  congr
  omega

/-- **A FUSE read gives the file's bytes.**  On an image `from_reader` accepts whose block
references agree, take a readable file, its FUSE number, an open handle and an offset that is a
nonnegative `i64`.  `read` calls `read_file` on the file with the handle's flags.  Started in any
state that any interleaving of reads reaches, that call is ended, with the reads in flight, by
some schedule of their steps: it records `InvalidOffset` past the end of the file, and otherwise
the requested bytes of its content. -/
theorem fromReader_read_content {opts : Options} {image : Bytes} {fs : SquashFs}
    (hfs : fromReader env opts image = .ok fs) (hagree : fs.BlocksAgree) {i : Nat}
    {file : FileInode} (hfile : fs.inodeTable.files.get? i = some file)
    (hf : fs.ReadableFile env file) {w : Bytes} (hw : fs.content env file = some w)
    {handles : Handles} {fh : Nat} {flags : ReadFlags} (hfh : handles.get? fh = some flags)
    {offset : Nat} (hoff : offset < 2 ^ 63) (size : Nat) {st : System ReadArgs Bytes}
    (hst : Reachable (fs.readTask env) (System.init fs) st) :
    fs.read handles (fs.inoToFuse i) fh offset size = .ok ⟨i, offset, size, flags⟩ ∧
      ∃ ids : List Nat, ∃ st', runActions (fs.readTask env) st
          (.spawn ⟨i, offset, size, flags⟩ :: ids.map .run) = some st' ∧ st'.tasks = [] ∧
        (st.nextId, ⟨i, offset, size, flags⟩, if file.fileSize < offset then
          .error (.error .invalidOffset)
          else .ok ((w.drop offset).take (min size (file.fileSize - offset)))) ∈ st'.finished := by
  refine ⟨fs.read_ok hfh
    (inoFromFuse_inoToFuse (fromReader_numbers hfs) (.inl (mem_inodes_of_file hfile))) (by omega)
    size, ?_⟩
  -- the call starts, then the reads in flight end
  have hs := Reachable.step (a := .spawn ⟨i, offset, size, flags⟩) hst rfl
  obtain ⟨ids, st', hrun, hnil, -, hfin⟩ :=
    run_all_end (fun a : ReadArgs => fs.readerLast_readFile env a.inode a.offset a.size a.flags _)
      (fromReader_keeps hfs).1 hs
  obtain ⟨r, hr⟩ := hfin _ (List.mem_append_right _ (List.mem_singleton_self _))
  have hr' := fs.finished_of_reachable env hagree (reachable_of_runActions hs hrun) hr hfile hf hw
  dsimp only at hr'
  refine ⟨ids, st', hrun, hnil, ?_⟩
  rwa [hr'] at hr

set_option maxRecDepth 100000 in
theorem fromReader_read_content_blockImage :
    ∃ fs, fromReader envCopy ⟨0, 1, 0, by decide, by decide, by decide⟩ blockImage = .ok fs ∧
      fs.BlocksAgree ∧ fs.inodeTable.files.get? 1 = some ⟨134, 16, ⟨0xFFFFFFFF, 0⟩, [⟨2 ^ 24 + 4⟩]⟩ ∧
      fs.ReadableFile envCopy ⟨134, 16, ⟨0xFFFFFFFF, 0⟩, [⟨2 ^ 24 + 4⟩]⟩ ∧
      fs.content envCopy ⟨134, 16, ⟨0xFFFFFFFF, 0⟩, [⟨2 ^ 24 + 4⟩]⟩ =
        some ([1, 2, 3, 4] ++ List.replicate 12 0) ∧
      (BTreeMap.empty.insert 1 0 : Handles).get? 1 = some 0 ∧ 1 < 2 ^ 63 ∧
      fs.read (BTreeMap.empty.insert 1 0) (fs.inoToFuse 1) 1 (1 : Nat) 4 = .ok ⟨1, 1, 4, 0⟩ ∧
      ∃ ids : List Nat, ∃ st', runActions (fs.readTask envCopy) (System.init fs)
          (.spawn ⟨1, 1, 4, 0⟩ :: ids.map .run) = some st' ∧ st'.tasks = [] ∧
        ((System.init fs : System ReadArgs Bytes).nextId, ⟨1, 1, 4, 0⟩, if 16 < 1 then .error (.error .invalidOffset)
          else .ok ((([1, 2, 3, 4] ++ List.replicate 12 0 : Bytes).drop 1).take (min 4 (16 - 1)))) ∈
          st'.finished := by
  have hfacts : (fromReader envCopy ⟨0, 1, 0, by decide, by decide, by decide⟩ blockImage).map
      (fun fs => (decide fs.BlocksAgree, fs.inodeTable.files.get? 1,
        decide (fs.ReadableFile envCopy ⟨134, 16, ⟨0xFFFFFFFF, 0⟩, [⟨2 ^ 24 + 4⟩]⟩),
        fs.content envCopy ⟨134, 16, ⟨0xFFFFFFFF, 0⟩, [⟨2 ^ 24 + 4⟩]⟩)) =
      .ok (true, some ⟨134, 16, ⟨0xFFFFFFFF, 0⟩, [⟨2 ^ 24 + 4⟩]⟩, true,
        some ([1, 2, 3, 4] ++ List.replicate 12 0)) := by
    decide
  cases h : fromReader envCopy ⟨0, 1, 0, by decide, by decide, by decide⟩ blockImage with
  | error e => rw [h] at hfacts; cases hfacts
  | ok fs =>
    rw [h] at hfacts
    simp only [Except.map, Except.ok.injEq, Prod.mk.injEq, decide_eq_true_eq] at hfacts
    obtain ⟨hagree, hfile, hf, hw⟩ := hfacts
    have hfh : (BTreeMap.empty.insert 1 0 : Handles).get? 1 = some 0 := rfl
    exact ⟨fs, rfl, hagree, hfile, hf, hw, hfh, by decide,
      fromReader_read_content h hagree hfile hf hw hfh (by decide) 4 .init⟩

end SquashFs

end SquashfsAsync
