import XBook.Kernel.BlockBufferRefines

/-!
# Runs of the buffer cache

Any sequence of `Bread`, `Bwrite` and `Bsync`, from the state that the drivers leave. A run
remembers what was last written to each block.
-/

namespace XBook

open Transition

variable {σ : Type*}

/-! ## The state after the drivers -/

/-- The disks of the drivers, with the major and minor numbers of each. -/
def bootDevices (ids : List (Nat × Nat)) (heads : Nat → BufferHead σ) (sectors : Nat → Nat → σ) :
    BlockSystem σ :=
  ids.foldl (fun s id => s.createDevice id.1 id.2) (.empty heads sectors)

/-- What holds while the drivers create their disks. -/
structure DevicesInv (s : BlockSystem σ) : Prop where
  device : ∀ b ∈ s.allBlockDeviceList,
    b.blockSize = blockSize ∧ b.disk ∈ s.allDiskList ∧ s.devnoOf b.disk = b.devno
  disk : ∀ d ∈ s.allDiskList, d < s.allDiskList.length
  idle : ∀ d, s.Idle d
  heads : ∀ d, s.headsOf d = []

theorem DevicesInv.create {s : BlockSystem σ} (h : DevicesInv s) (major minor : Nat) :
    DevicesInv (s.createDevice major minor) := by
  refine ⟨?_, ?_, ?_, ?_⟩
  · intro b hb
    rcases List.mem_append.mp hb with hold | hnew
    · obtain ⟨hsize, hdisk, hdevno⟩ := h.device b hold
      have hne : b.disk ≠ s.allDiskList.length := Nat.ne_of_lt (h.disk _ hdisk)
      refine ⟨hsize, List.mem_append_left _ hdisk, ?_⟩
      rw [← hdevno]
      simp [BlockSystem.devnoOf, BlockSystem.createDevice, hne]
    · cases List.mem_singleton.mp hnew
      refine ⟨rfl, List.mem_append_right _ (List.mem_singleton.mpr rfl), ?_⟩
      simp [BlockSystem.devnoOf, BlockSystem.createDevice]
  · intro d hd
    rw [BlockSystem.createDevice, List.length_append]
    rcases List.mem_append.mp hd with hold | hnew
    · have := h.disk d hold
      omega
    · cases List.mem_singleton.mp hnew
      simp
  · intro d
    by_cases hd : d = s.allDiskList.length
    · subst hd
      exact ⟨true, by simp [BlockSystem.createDevice, RequestQueue.blockInitQueue]⟩
    · obtain ⟨onUp, hold⟩ := h.idle d
      exact ⟨onUp, by simp [BlockSystem.createDevice, hd, hold]⟩
  · intro d
    by_cases hd : d = s.allDiskList.length
    · subst hd
      simp [BlockSystem.headsOf, BlockSystem.createDevice]
    · simpa [BlockSystem.headsOf, BlockSystem.createDevice, hd] using h.heads d

theorem devices_inv_boot (ids : List (Nat × Nat)) (heads : Nat → BufferHead σ)
    (sectors : Nat → Nat → σ) : DevicesInv (bootDevices ids heads sectors) := by
  have hfold : ∀ s : BlockSystem σ, DevicesInv s →
      DevicesInv (ids.foldl (fun s id => s.createDevice id.1 id.2) s) := by
    induction ids with
    | nil => exact fun s h => h
    | cons id rest ih => exact fun s h => ih _ (h.create id.1 id.2)
  exact hfold _ ⟨nofun, nofun, fun _ => ⟨true, rfl⟩, fun _ => rfl⟩

/-- The contents of a block on the disk of a device. -/
def BlockSystem.deviceBlock (s : BlockSystem σ) (devno lba : Nat) : Nat → σ :=
  fun i => s.sectors (((s.getBlockDeviceByDevno devno).map BlockDevice.disk).getD 0) (lba * 2 + i)

/-- Without any buffer the cache shows what is on the disks. -/
theorem DevicesInv.cache_inv {s : BlockSystem σ} (h : DevicesInv s) :
    CacheInv s s.deviceBlock := by
  refine ⟨⟨h.device, h.idle, ?_, ?_⟩, ?_⟩
  · intro d bh hbh
    rw [h.heads] at hbh
    cases hbh
  · intro d bh hbh
    rw [h.heads] at hbh
    cases hbh
  · intro devno b hb lba _
    refine ⟨?_, ?_⟩
    · intro bh hbh
      rw [h.heads] at hbh
      cases hbh
    · intro _ i _
      rw [BlockSystem.deviceBlock, hb]
      rfl

/-! ## Runs -/

/-- A call to the buffer cache. `Bwrite` is given the sectors of its buffer. -/
inductive BlockOp (σ : Type*) where
  | bread (devno : Nat) (lba : UInt32)
  | bwrite (devno : Nat) (lba : UInt32) (buffer : Nat → σ)
  | bsync

/-- The block system, with the last data written to each block of a device. -/
structure BlockTrace (σ : Type*) where
  system : BlockSystem σ
  written : Nat → Nat → Option (Nat → σ)

/-- One call. A device that is not there has no block to read or write. -/
def blockStep (s : BlockTrace σ) : BlockOp σ → Option (BlockTrace σ)
  | .bread devno lba =>
      (s.system.bread devno lba.toNat).map fun r => { s with system := r.1 }
  | .bwrite devno lba buffer =>
      (s.system.bwrite devno lba.toNat buffer).map fun r =>
        { system := r.1
          written := fun devno' lba' =>
            if devno' = devno ∧ lba' = lba.toNat then some buffer else s.written devno' lba' }
  | .bsync => s.system.bsync.map fun t => { s with system := t }

/-- The sector number of the block fits in 32 bits. -/
def BlockOp.LbaFits : BlockOp σ → Prop
  | .bread _ lba => lba.toNat < 2 ^ 31
  | .bwrite _ lba _ => lba.toNat < 2 ^ 31
  | .bsync => True

instance : DecidablePred (@BlockOp.LbaFits σ)
  | .bread _ lba => inferInstanceAs (Decidable (lba.toNat < 2 ^ 31))
  | .bwrite _ lba _ => inferInstanceAs (Decidable (lba.toNat < 2 ^ 31))
  | .bsync => inferInstanceAs (Decidable True)

namespace BlockTrace

/-- The trace before the first call. -/
def start (boot : BlockSystem σ) : BlockTrace σ := ⟨boot, fun _ _ => none⟩

/-- The last data written to a block, or what its device held in the beginning. -/
def contents (boot : BlockSystem σ) (s : BlockTrace σ) (devno lba : Nat) : Nat → σ :=
  (s.written devno lba).getD (boot.deviceBlock devno lba)

/-- `Bread` returns the contents of every block of every device. -/
def ReadsBack (boot : BlockSystem σ) (s : BlockTrace σ) : Prop :=
  ∀ devno lba : Nat, (boot.getBlockDeviceByDevno devno).isSome → lba < 2 ^ 31 →
    ∃ t bh, s.system.bread devno lba = some (t, some bh) ∧
      ∀ i < 2, (t.heads bh).data i = s.contents boot devno lba i

/-- `Bwrite` goes through for every block of every device. -/
def Writes (boot : BlockSystem σ) (s : BlockTrace σ) : Prop :=
  ∀ devno lba : Nat, (boot.getBlockDeviceByDevno devno).isSome → lba < 2 ^ 31 →
    ∀ buffer, (s.system.bwrite devno lba buffer).isSome

/-- `Bsync` makes every cached block clean, and every dirty one equal to the block of the
device. -/
def Syncs (s : BlockTrace σ) : Prop :=
  ∃ t, s.system.bsync = some t ∧
    ∀ d, ∀ bh ∈ s.system.headsOf d, (t.heads bh).dirty = false ∧
      ((s.system.heads bh).dirty = true → ∀ i < 2,
        (t.heads bh).data i = t.sectors d ((s.system.heads bh).lba * 2 + i))

end BlockTrace

/-- The invariant of a run: the cache shows the last data written to each block. -/
structure TraceInv (boot : BlockSystem σ) (s : BlockTrace σ) : Prop where
  cache : CacheInv s.system (s.contents boot)
  devices : s.system.allBlockDeviceList = boot.allBlockDeviceList

theorem TraceInv.lookup {boot : BlockSystem σ} {s : BlockTrace σ} (h : TraceInv boot s)
    (devno : Nat) :
    s.system.getBlockDeviceByDevno devno = boot.getBlockDeviceByDevno devno := by
  rw [BlockSystem.getBlockDeviceByDevno, h.devices]
  rfl

/-- There is no block without a device. -/
theorem BlockSystem.get_block_none {s : BlockSystem σ} {devno : Nat}
    (h : s.getBlockDeviceByDevno devno = none) (lba : Nat) : s.getBlock devno lba = none := by
  rw [BlockSystem.getBlock, h]
  rfl

/-- One call keeps the invariant. -/
theorem TraceInv.step {boot : BlockSystem σ} {s t : BlockTrace σ} {op : BlockOp σ}
    (h : TraceInv boot s) (hfits : op.LbaFits) (hstep : blockStep s op = some t) :
    TraceInv boot t := by
  cases op with
  | bread devno lba =>
      cases hb : s.system.getBlockDeviceByDevno devno with
      | none =>
          rw [blockStep, BlockSystem.bread, BlockSystem.get_block_none hb] at hstep
          cases hstep
      | some b =>
          obtain ⟨r, bh, hread, hr, -, hdevices⟩ := h.cache.bread hb hfits
          rw [blockStep, hread] at hstep
          cases hstep
          exact ⟨hr, hdevices.trans h.devices⟩
  | bwrite devno lba buffer =>
      cases hb : s.system.getBlockDeviceByDevno devno with
      | none =>
          rw [blockStep, BlockSystem.bwrite, BlockSystem.get_block_none hb] at hstep
          cases hstep
      | some b =>
          obtain ⟨r, bh, hwrite, hr, hdevices⟩ := h.cache.bwrite hb hfits buffer
          rw [blockStep, hwrite] at hstep
          cases hstep
          refine ⟨?_, hdevices.trans h.devices⟩
          have hcontents : BlockTrace.contents boot
              ⟨r, fun devno' lba' => if devno' = devno ∧ lba' = lba.toNat then some buffer
                else s.written devno' lba'⟩ =
              writeBlock (s.contents boot) devno lba.toNat buffer := by
            funext devno' lba'
            simp only [BlockTrace.contents, writeBlock]
            split <;> rfl
          exact hcontents ▸ hr
  | bsync =>
      obtain ⟨r, hsync, hr, hsame, -⟩ := h.cache.bsync
      rw [blockStep, hsync] at hstep
      cases hstep
      exact ⟨hr, hsame.devices.trans h.devices⟩

theorem TraceInv.reads_back {boot : BlockSystem σ} {s : BlockTrace σ} (h : TraceInv boot s) :
    s.ReadsBack boot := by
  intro devno lba hdevice hlba
  obtain ⟨b, hb⟩ := Option.isSome_iff_exists.mp hdevice
  obtain ⟨t, bh, hread, -, hdata, -⟩ := h.cache.bread ((h.lookup devno).trans hb) hlba
  exact ⟨t, bh, hread, hdata⟩

theorem TraceInv.writes {boot : BlockSystem σ} {s : BlockTrace σ} (h : TraceInv boot s) :
    s.Writes boot := by
  intro devno lba hdevice hlba buffer
  obtain ⟨b, hb⟩ := Option.isSome_iff_exists.mp hdevice
  obtain ⟨t, bh, hwrite, -⟩ := h.cache.bwrite ((h.lookup devno).trans hb) hlba buffer
  rw [hwrite]
  rfl

theorem TraceInv.syncs {boot : BlockSystem σ} {s : BlockTrace σ} (h : TraceInv boot s) :
    s.Syncs := by
  obtain ⟨t, hsync, -, -, hclean⟩ := h.cache.bsync
  refine ⟨t, hsync, ?_⟩
  intro d bh hbh
  exact (hclean d bh hbh).2

/-- In every run whose blocks all have a sector number in 32 bits, the cache reads back the last
data written to each block, and `Bsync` brings it to the devices. -/
theorem block_cache_refines {ids : List (Nat × Nat)} {heads : Nat → BufferHead σ}
    {sectors : Nat → Nat → σ} {ops : List (BlockOp σ)} {s : BlockTrace σ}
    (hrun : Run (stepOf blockStep) (fun _ op => op.LbaFits)
      (.start (bootDevices ids heads sectors)) ops s) :
    s.ReadsBack (bootDevices ids heads sectors) ∧ s.Writes (bootDevices ids heads sectors) ∧
      s.Syncs := by
  have hinv : TraceInv (bootDevices ids heads sectors) s :=
    hrun.invariant (fun _ _ _ hs hfits hstep => hs.step hfits hstep)
      ⟨(devices_inv_boot ids heads sectors).cache_inv, rfl⟩
  exact ⟨hinv.reads_back, hinv.writes, hinv.syncs⟩

section

/-- The device number of the first disk of the ramdisk driver. -/
abbrev devRda : Nat := mkdev 4 0

/-- One disk, whose sector number `n` holds the value `n`. -/
abbrev oneDisk : BlockSystem Nat :=
  bootDevices [(4, 0)] (fun _ => ⟨0, 0, 0, fun _ => 0, false, false, false, 0⟩) fun _ sector => sector

/-- Block 5 is written twice with a `Bsync` between, and read after each. -/
def twoWrites : List (BlockOp Nat) :=
  [.bread devRda 5, .bwrite devRda 5 fun _ => 70, .bread devRda 5, .bsync,
    .bwrite devRda 5 fun _ => 71, .bread devRda 6]

theorem two_writes_read_back : ∃ s, Run (stepOf blockStep) (fun _ op => op.LbaFits)
    (.start oneDisk) twoWrites s ∧ (s.written devRda 5).map (· 0) = some 71 ∧
      s.ReadsBack oneDisk ∧ s.Writes oneDisk ∧ s.Syncs := by
  obtain ⟨s, t, hstart, hrun, hwritten⟩ := exists_run_checked blockStep
    (fun _ op => op.LbaFits) (some (.start oneDisk)) twoWrites
    (fun s => (s.written devRda 5).map (· 0)) (v := some 71) (by decide +kernel)
  cases Option.some.inj hstart
  exact ⟨t, hrun, hwritten, block_cache_refines hrun⟩

/-- The sector number of block `2 ^ 31` wraps around to that of block 0. -/
theorem lba_wraps_to_block_zero : ∃ s, Run (stepOf blockStep) anyLabel
    (.start oneDisk) [.bwrite devRda 0x80000000 fun _ => 70, .bsync] s ∧
      s.written devRda 0 = none ∧ ¬ s.ReadsBack oneDisk := by
  obtain ⟨s, t, hstart, hrun, hview⟩ := exists_run_all blockStep (some (.start oneDisk))
    [.bwrite devRda 0x80000000 fun _ => 70, .bsync]
    (fun s => ((s.written devRda 0).isNone, (s.system.bread devRda 0).map fun r =>
      r.2.map fun bh => (r.1.heads bh).data 0)) (v := (true, some (some 70))) (by decide +kernel)
  cases Option.some.inj hstart
  obtain ⟨hnone, hdata⟩ := Prod.mk.inj hview
  have hwritten := Option.isNone_iff_eq_none.mp hnone
  refine ⟨t, hrun, hwritten, ?_⟩
  intro hreads
  obtain ⟨r, bh, hread, hcontents⟩ := hreads devRda 0 (by decide) (by decide)
  rw [hread] at hdata
  have hvalue : (r.heads bh).data 0 = 70 := Option.some.inj (Option.some.inj hdata)
  have horiginal : t.contents oneDisk devRda 0 0 = 0 := by
    rw [BlockTrace.contents, hwritten]
    rfl
  rw [hcontents 0 (by decide), horiginal] at hvalue
  exact absurd hvalue (by decide)

end

end XBook
