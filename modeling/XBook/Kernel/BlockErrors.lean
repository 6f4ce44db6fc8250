import XBook.Kernel.BlockBufferRuns

/-!
# Transfers that fail

The buffer cache of `XBook.Kernel.BlockBuffer` over a device whose transfers may fail. Which ones
do, and what they make of the buffer or of the disk, is left to the device. `DoBlockRequest` of both
drivers drops the result, and `BlockEndRequest` is always told of 0 errors. `ended` records each
request with its result and with its buffer head as `BlockEndRequest` leaves it.
-/

namespace XBook

open Transition

variable {σ : Type*}

/-- A request that has ended. -/
structure Ended (σ : Type*) where
  disk : Nat
  rq : Request
  failed : Bool
  head : BufferHead σ

/-- The block system, with the requests that have ended, the last one first. -/
structure FaultySystem (σ : Type*) where
  base : BlockSystem σ
  ended : List (Ended σ)

/-- The result of a transfer: `none` when it succeeds, and else what it makes of the data it should
have replaced. -/
abbrev Device (σ : Type*) := List (Ended σ) → Nat → Request → Option ((Nat → σ) → Nat → σ)

/-- `RamdiskReadSector` and `RamdiskWriteSector`, for disks of these sizes. -/
def ramdisk (size : Nat → Nat) : Device σ := fun _ d rq =>
  if size d < wrap (rq.lba + rq.count) then some id else none

namespace FaultySystem

/-- A transfer that fails. -/
def spoil (s : BlockSystem σ) (d : Nat) (rq : Request) (left : (Nat → σ) → Nat → σ) :
    BlockSystem σ :=
  match rq.cmd with
  | .read => s.setHead rq.bh { s.heads rq.bh with data := left (s.heads rq.bh).data }
  | .write => { s with sectors := Function.update s.sectors d (left (s.sectors d)) }

/-- `BlockEndRequest(rq, 0)`. -/
def blockEndRequest (s : FaultySystem σ) (d : Nat) (rq : Request) (failed : Bool) :
    FaultySystem σ :=
  let base := s.base.blockEndRequest d rq
  { base, ended := ⟨d, rq, failed, base.heads rq.bh⟩ :: s.ended }

variable (device : Device σ)

/-- A round of `DoBlockRequest`. -/
def serve (s : FaultySystem σ) (d : Nat) (rq : Request) : FaultySystem σ :=
  match device s.ended d rq with
  | none => { s with base := s.base.transfer d rq }.blockEndRequest d rq false
  | some left => { s with base := spoil s.base d rq left }.blockEndRequest d rq true

/-- The loop of `DoBlockRequest`. -/
def doBlockRequest : Nat → Nat → FaultySystem σ → Option (FaultySystem σ)
  | 0, _, _ => none
  | fuel + 1, d, s =>
      let r := (s.base.disks d).requestQueue.blockFetchRequest
      let s := { s with base := s.base.setQueue d r.1 }
      match r.2 with
      | none => some s
      | some rq => doBlockRequest fuel d (s.serve device d rq)

/-- `AddRequest` with its `BlockStartRequeue`. -/
def addRequest (s : FaultySystem σ) (d : Nat) (rq : Request) : Option (FaultySystem σ) :=
  ((s.base.disks d).requestQueue.elevatorIoSchedule Request.lba rq).bind fun q =>
    match q.currentRequest with
    | some _ => none
    | none =>
        doBlockRequest device (q.upRequestList.length + q.downRequestList.length + 1) d
          { s with base := s.base.setQueue d { q with currentRequest := some rq } }

/-- `MakeRequest`. -/
def makeRequest (s : FaultySystem σ) (rw : BlockCmd) (bh : Nat) : Option (FaultySystem σ) :=
  let base := s.base.setLocked bh true
  let head := base.heads bh
  if rw = .write ∧ head.dirty = false ∨ rw = .read ∧ head.uptodate = true then
    some { s with base := base.setLocked bh false }
  else
    match base.getBlockDeviceByDevno head.devno with
    | some dev =>
        let count := dev.blockSize / sectorSize
        { s with base }.addRequest device dev.disk ⟨bh, wrap (head.lba * count), count, rw⟩
    | none => some { s with base := base.setLocked bh false }

/-- `Bread`. -/
def bread (s : FaultySystem σ) (devno lba : Nat) : Option (FaultySystem σ × Option Nat) :=
  (s.base.getBlock devno lba).bind fun (base, bh) =>
    if (base.heads bh).uptodate then some ({ s with base }, some bh)
    else
      ({ s with base }.makeRequest device .read bh).bind fun s =>
        (s.base.waitOnBuffer bh).bind fun base =>
          if (base.heads bh).uptodate then some ({ s with base }, some bh)
          else (base.brelease bh).map fun base => ({ s with base }, none)

/-- `Bwrite`, which makes no request. -/
def bwrite (s : FaultySystem σ) (devno lba : Nat) (buffer : Nat → σ) :
    Option (FaultySystem σ × Nat) :=
  (s.base.bwrite devno lba buffer).map fun (base, bh) => ({ s with base }, bh)

/-- `BsyncOne`. -/
def bsyncOne (s : FaultySystem σ) (bh : Nat) : Option (FaultySystem σ) :=
  if (s.base.heads bh).dirty = false then some s
  else
    (s.makeRequest device .write bh).bind fun s =>
      (s.base.waitOnBuffer bh).bind fun base =>
        if (base.heads bh).dirty = false then some { s with base }
        else (base.brelease bh).map fun base => { s with base }

/-- The loop of `Bsync` over the buffers of one disk. -/
def bsyncHeads : List Nat → FaultySystem σ → Option (FaultySystem σ)
  | [], s => some s
  | bh :: rest, s => (s.bsyncOne device bh).bind (bsyncHeads rest)

/-- The loop of `Bsync` over the disks. -/
def bsyncDisks : List Nat → FaultySystem σ → Option (FaultySystem σ)
  | [], s => some s
  | d :: rest, s =>
      (bsyncHeads device (s.base.disks d).bufferHeadList s).bind (bsyncDisks rest)

/-- `Bsync`. -/
def bsync (s : FaultySystem σ) : Option (FaultySystem σ) :=
  bsyncDisks device s.base.allDiskList s

/-- One call to the buffer cache. -/
def step (s : FaultySystem σ) : BlockOp σ → Option (FaultySystem σ)
  | .bread devno lba => (s.bread device devno lba.toNat).map Prod.fst
  | .bwrite devno lba buffer => (s.bwrite devno lba.toNat buffer).map Prod.fst
  | .bsync => s.bsync device

end FaultySystem

/-- A transfer that has failed can be seen at the buffer: a read has not made it valid, and after a
write it is dirty. -/
structure Ended.Shown (e : Ended σ) : Prop where
  read : e.failed = true → e.rq.cmd = .read → e.head.uptodate = false
  write : e.failed = true → e.rq.cmd = .write → e.head.dirty = true

/-- `BlockEndRequest` has left the buffer valid, and clean after a write. -/
structure Ended.Masked (e : Ended σ) : Prop where
  valid : e.head.uptodate = true
  clean : e.rq.cmd = .write → e.head.dirty = false

/-- Behind a masked result only a transfer that has not failed is right. -/
theorem Ended.Masked.shown_iff {e : Ended σ} (h : e.Masked) : e.Shown ↔ e.failed = false := by
  constructor
  · intro hshown
    by_contra hfailed
    rw [Bool.not_eq_false] at hfailed
    cases hcmd : e.rq.cmd with
    | read =>
        have hinvalid := hshown.read hfailed hcmd
        rw [h.valid] at hinvalid
        cases hinvalid
    | write =>
        have hdirty := hshown.write hfailed hcmd
        rw [h.clean hcmd] at hdirty
        cases hdirty
  · intro hgood
    rw [Bool.eq_false_iff] at hgood
    exact ⟨fun hfailed => absurd hfailed hgood, fun hfailed => absurd hfailed hgood⟩

namespace FaultySystem

variable {device : Device σ} {s t : FaultySystem σ}

/-- Every request has ended with its result masked. -/
def AllMasked (s : FaultySystem σ) : Prop := ∀ e ∈ s.ended, e.Masked

/-- A step that ends in a state where all results are masked. -/
abbrev KeepsMasked (r : Option (FaultySystem σ)) : Prop := ∀ t, r = some t → t.AllMasked

theorem AllMasked.block_end_request (h : s.AllMasked) (d : Nat) (rq : Request) (failed : Bool) :
    (s.blockEndRequest d rq failed).AllMasked := by
  intro e he
  obtain rfl | hold := List.mem_cons.mp he
  · have hhead : ((s.base.blockEndRequest d rq).heads rq.bh).uptodate = true ∧
        ((s.base.blockEndRequest d rq).heads rq.bh).dirty =
          ((s.base.heads rq.bh).dirty && decide (rq.cmd ≠ .write)) := by
      simp only [BlockSystem.blockEndRequest, BlockSystem.setQueue, BlockSystem.setDisk,
        BlockSystem.setHead, Function.update_self, and_self]
    refine ⟨hhead.1, fun hwrite => ?_⟩
    show ((s.base.blockEndRequest d rq).heads rq.bh).dirty = false
    rw [hhead.2, decide_eq_false fun hne => hne hwrite, Bool.and_false]
  · exact h e hold

theorem AllMasked.serve (h : s.AllMasked) (d : Nat) (rq : Request) :
    (s.serve device d rq).AllMasked := by
  rw [FaultySystem.serve]
  cases device s.ended d rq with
  | none =>
      exact AllMasked.block_end_request (s := { s with base := s.base.transfer d rq }) h d rq false
  | some left =>
      exact AllMasked.block_end_request (s := { s with base := spoil s.base d rq left }) h d rq true

theorem AllMasked.do_block_request (h : s.AllMasked) (fuel d : Nat) :
    KeepsMasked (doBlockRequest device fuel d s) := by
  induction fuel generalizing s with
  | zero => exact fun t ht => absurd ht (Option.some_ne_none t).symm
  | succ fuel ih =>
      intro t ht
      rw [doBlockRequest] at ht
      cases hrq : (s.base.disks d).requestQueue.blockFetchRequest.2 with
      | none =>
          rw [hrq] at ht
          cases ht
          exact h
      | some rq =>
          rw [hrq] at ht
          refine ih (AllMasked.serve ?_ d rq) t ht
          exact h

theorem AllMasked.add_request (h : s.AllMasked) (d : Nat) (rq : Request) :
    KeepsMasked (s.addRequest device d rq) := by
  intro t ht
  obtain ⟨q, -, hq⟩ := Option.bind_eq_some_iff.mp ht
  cases hcurrent : q.currentRequest with
  | some rq' =>
      rw [hcurrent] at hq
      cases hq
  | none =>
      rw [hcurrent] at hq
      refine AllMasked.do_block_request ?_ _ d t hq
      exact h

theorem AllMasked.make_request (h : s.AllMasked) (cmd : BlockCmd) (bh : Nat) :
    KeepsMasked (s.makeRequest device cmd bh) := by
  intro t ht
  rw [makeRequest] at ht
  dsimp only at ht
  split at ht
  · cases ht
    exact h
  · split at ht
    · refine AllMasked.add_request ?_ _ _ t ht
      exact h
    · cases ht
      exact h

theorem AllMasked.bread (h : s.AllMasked) (devno lba : Nat) {r : FaultySystem σ × Option Nat}
    (hr : s.bread device devno lba = some r) : r.1.AllMasked := by
  obtain ⟨⟨base, bh⟩, -, hblock⟩ := Option.bind_eq_some_iff.mp hr
  dsimp only at hblock
  split at hblock
  · cases hblock
    exact h
  · obtain ⟨s₁, hmake, hwait⟩ := Option.bind_eq_some_iff.mp hblock
    have h₁ : s₁.AllMasked :=
      AllMasked.make_request (s := { s with base }) h .read bh s₁ hmake
    obtain ⟨base', -, hend⟩ := Option.bind_eq_some_iff.mp hwait
    split at hend
    · cases hend
      exact h₁
    · obtain ⟨base'', -, rfl⟩ := Option.map_eq_some_iff.mp hend
      exact h₁

theorem AllMasked.bsync_one (h : s.AllMasked) (bh : Nat) :
    KeepsMasked (s.bsyncOne device bh) := by
  intro t ht
  rw [bsyncOne] at ht
  split at ht
  · cases ht
    exact h
  · obtain ⟨s₁, hmake, hwait⟩ := Option.bind_eq_some_iff.mp ht
    have h₁ : s₁.AllMasked := h.make_request .write bh s₁ hmake
    obtain ⟨base, -, hend⟩ := Option.bind_eq_some_iff.mp hwait
    split at hend
    · cases hend
      exact h₁
    · obtain ⟨base', -, rfl⟩ := Option.map_eq_some_iff.mp hend
      exact h₁

theorem AllMasked.bsync_heads (h : s.AllMasked) (heads : List Nat) :
    KeepsMasked (bsyncHeads device heads s) := by
  induction heads generalizing s with
  | nil =>
      intro t ht
      cases ht
      exact h
  | cons bh rest ih =>
      intro t ht
      obtain ⟨s₁, hone, hrest⟩ := Option.bind_eq_some_iff.mp ht
      exact ih (h.bsync_one bh s₁ hone) t hrest

theorem AllMasked.bsync_disks (h : s.AllMasked) (disks : List Nat) :
    KeepsMasked (bsyncDisks device disks s) := by
  induction disks generalizing s with
  | nil =>
      intro t ht
      cases ht
      exact h
  | cons d rest ih =>
      intro t ht
      obtain ⟨s₁, hone, hrest⟩ := Option.bind_eq_some_iff.mp ht
      exact ih (h.bsync_heads _ s₁ hone) t hrest

/-- The step lemma. -/
theorem AllMasked.step (h : s.AllMasked) (op : BlockOp σ) : KeepsMasked (s.step device op) := by
  intro t ht
  cases op with
  | bread devno lba =>
      obtain ⟨r, hr, rfl⟩ := Option.map_eq_some_iff.mp ht
      exact h.bread devno lba.toNat hr
  | bwrite devno lba buffer =>
      obtain ⟨r, hr, rfl⟩ := Option.map_eq_some_iff.mp ht
      obtain ⟨⟨base, bh⟩, -, rfl⟩ := Option.map_eq_some_iff.mp hr
      exact h
  | bsync => exact h.bsync_disks _ t ht

/-- The drivers have made no request. -/
def start (boot : BlockSystem σ) : FaultySystem σ := ⟨boot, []⟩

end FaultySystem

/-- In every run of the buffer cache, over every device, all failed transfers can be seen at their
buffers behind `BlockEndRequest` if and only if none has failed. -/
theorem errors_shown_iff {device : Device σ} {ids : List (Nat × Nat)} {heads : Nat → BufferHead σ}
    {sectors : Nat → Nat → σ} {ops : List (BlockOp σ)} {t : FaultySystem σ}
    (hrun : Run (stepOf (FaultySystem.step device)) anyLabel
      (.start (bootDevices ids heads sectors)) ops t) :
    (∀ e ∈ t.ended, e.Shown) ↔ ∀ e ∈ t.ended, e.failed = false := by
  have hmasked : t.AllMasked :=
    hrun.invariant (fun s op t hs _ hstep => hs.step op t hstep)
      fun e he => absurd he List.not_mem_nil
  exact forall₂_congr fun e he => (hmasked e he).shown_iff

section

/-- A disk of ten sectors. -/
abbrev tenSectors : Device Nat := ramdisk fun _ => 10

/-- Block 4 is written and brought to the disk, and block 3 is read. -/
theorem block_four_written : ∃ t, Run (stepOf (FaultySystem.step tenSectors)) anyLabel
    (.start oneDisk) [.bwrite devRda 4 fun _ => 70, .bsync, .bread devRda 3] t ∧
      t.ended.map (·.failed) = [false, false] ∧ ∀ e ∈ t.ended, e.Shown := by
  obtain ⟨s, t, hstart, hrun, hfailed⟩ := exists_run_all (FaultySystem.step tenSectors)
    (some (.start oneDisk)) [.bwrite devRda 4 fun _ => 70, .bsync, .bread devRda 3]
    (fun s => s.ended.map (·.failed)) (v := [false, false]) (by decide +kernel)
  cases Option.some.inj hstart
  refine ⟨t, hrun, hfailed, (errors_shown_iff hrun).mpr fun e he => ?_⟩
  have hmem : e.failed ∈ t.ended.map (·.failed) := List.mem_map_of_mem he
  rw [hfailed] at hmem
  simpa using hmem

/-- Block 5 is behind the last sector. Its read fails, and the buffer is valid for the second
`Bread`, which makes no request. -/
theorem failed_read_masked : ∃ t, Run (stepOf (FaultySystem.step tenSectors)) anyLabel
    (.start oneDisk) [.bread devRda 5, .bread devRda 5] t ∧
      t.ended.length = 1 ∧ ∃ e ∈ t.ended, ¬e.Shown := by
  obtain ⟨s, t, hstart, hrun, hview⟩ := exists_run_all (FaultySystem.step tenSectors)
    (some (.start oneDisk)) [.bread devRda 5, .bread devRda 5]
    (fun s => s.ended.map fun e => (e.failed, e.rq.cmd, e.head.uptodate))
    (v := [(true, .read, true)]) (by decide +kernel)
  cases Option.some.inj hstart
  have hlength : t.ended.length = 1 := by
    rw [← List.length_map, hview]
    rfl
  obtain ⟨e, he⟩ := List.length_eq_one_iff.mp hlength
  rw [he] at hview
  have hentry := List.head_eq_of_cons_eq hview
  obtain ⟨hfailed, hrest⟩ := Prod.mk.inj hentry
  obtain ⟨hcmd, hvalid⟩ := Prod.mk.inj hrest
  refine ⟨t, hrun, hlength, e, by rw [he]; exact List.mem_singleton_self e, fun hshown => ?_⟩
  have hinvalid := hshown.read hfailed hcmd
  rw [hvalid] at hinvalid
  cases hinvalid

end

end XBook
