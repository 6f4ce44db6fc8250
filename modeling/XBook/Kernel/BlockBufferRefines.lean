import XBook.Kernel.BlockBuffer
import XBook.Lib.Transition

/-!
# The buffer cache refines a map of blocks
-/

namespace XBook

open Transition

variable {σ : Type*}

namespace BlockSystem

/-- What a transfer that has ended leaves in the buffer head of its request. -/
def served (s : BlockSystem σ) (d : Nat) (rq : Request) : BufferHead σ :=
  let head := (s.transfer d rq).heads rq.bh
  { head with
    uptodate := true
    dirty := head.dirty && rq.cmd ≠ .write
    locked := false
    count := head.count - 1 }

end BlockSystem

/-- On an idle queue a request is served at once, and leaves the queue idle. -/
theorem add_request_idle (s : BlockSystem σ) (d : Nat) (rq : Request) {onUp : Bool}
    (hidle : (s.disks d).requestQueue = ⟨[], [], onUp, none⟩) :
    s.addRequest d rq = some { s with
      disks := Function.update s.disks d
        { s.disks d with requestQueue := ⟨[], [], !onUp, none⟩ }
      heads := Function.update s.heads rq.bh (s.served d rq)
      sectors := (s.transfer d rq).sectors } := by
  obtain ⟨bh, lba, count, cmd⟩ := rq
  cases onUp <;> cases cmd <;>
    simp [BlockSystem.addRequest, hidle, RequestQueue.elevatorIoSchedule,
      RequestQueue.requestList, RequestQueue.setRequestList, BlockSystem.doBlockRequest,
      RequestQueue.blockFetchRequest, RequestQueue.switchRequestList, BlockSystem.setQueue,
      BlockSystem.setDisk, BlockSystem.blockEndRequest, BlockSystem.transfer,
      BlockSystem.setHead, BlockSystem.served]

/-! ## The invariant -/

namespace BlockSystem

/-- The device number of a disk. -/
def devnoOf (s : BlockSystem σ) (d : Nat) : Nat := mkdev (s.disks d).major (s.disks d).firstMinor

/-- The buffer heads of a disk. -/
def headsOf (s : BlockSystem σ) (d : Nat) : List Nat := (s.disks d).bufferHeadList

/-- No request of a disk is waiting or in progress. -/
def Idle (s : BlockSystem σ) (d : Nat) : Prop :=
  ∃ onUp, (s.disks d).requestQueue = ⟨[], [], onUp, none⟩

/-- Two systems with the same devices, disks and buffers, whatever the buffers hold. -/
structure SameDisks (s t : BlockSystem σ) : Prop where
  devices : t.allBlockDeviceList = s.allBlockDeviceList
  list : t.allDiskList = s.allDiskList
  next : t.nextHead = s.nextHead
  devno : ∀ d, t.devnoOf d = s.devnoOf d
  heads : ∀ d, t.headsOf d = s.headsOf d

end BlockSystem

/-- A buffer head on the list of disk `d`. -/
structure HeadInv (s : BlockSystem σ) (d bh : Nat) : Prop where
  fresh : bh < s.nextHead
  device : ∃ b, s.getBlockDeviceByDevno (s.heads bh).devno = some b ∧ b.disk = d
  size : (s.heads bh).size = blockSize
  range : (s.heads bh).lba < 2 ^ 31
  unlocked : (s.heads bh).locked = false
  valid : (s.heads bh).dirty = true → (s.heads bh).uptodate = true
  clean : (s.heads bh).uptodate = true → (s.heads bh).dirty = false →
    ∀ i < 2, (s.heads bh).data i = s.sectors d ((s.heads bh).lba * 2 + i)

/-- The invariant of the buffer cache between two calls. -/
structure BufferInv (s : BlockSystem σ) : Prop where
  device : ∀ b ∈ s.allBlockDeviceList,
    b.blockSize = blockSize ∧ b.disk ∈ s.allDiskList ∧ s.devnoOf b.disk = b.devno
  idle : ∀ d, s.Idle d
  head : ∀ d, ∀ bh ∈ s.headsOf d, HeadInv s d bh
  unique : ∀ d, ∀ bh ∈ s.headsOf d, ∀ bh' ∈ s.headsOf d,
    (s.heads bh).lba = (s.heads bh').lba → bh = bh'

/-- The cache shows a block of a disk: a valid buffer of the block has its data, and without one
the sectors of the disk have. -/
structure Shows (s : BlockSystem σ) (d lba : Nat) (block : Nat → σ) : Prop where
  cached : ∀ bh ∈ s.headsOf d, (s.heads bh).lba = lba → (s.heads bh).uptodate = true →
    ∀ i < 2, (s.heads bh).data i = block i
  stored : (∀ bh ∈ s.headsOf d, (s.heads bh).lba = lba → (s.heads bh).uptodate = false) →
    ∀ i < 2, s.sectors d (lba * 2 + i) = block i

/-- The invariant, with the contents that the cache shows of every block. -/
structure CacheInv (s : BlockSystem σ) (view : Nat → Nat → Nat → σ) : Prop extends BufferInv s where
  shows : ∀ devno b, s.getBlockDeviceByDevno devno = some b → ∀ lba < 2 ^ 31,
    Shows s b.disk lba (view devno lba)

section

variable {s t : BlockSystem σ} {view view' : Nat → Nat → Nat → σ}

theorem BlockSystem.SameDisks.lookup (h : s.SameDisks t) (devno : Nat) :
    t.getBlockDeviceByDevno devno = s.getBlockDeviceByDevno devno := by
  rw [BlockSystem.getBlockDeviceByDevno, h.devices]
  rfl

/-- A device number is that of one disk, and that disk is of one device number. -/
theorem BufferInv.lookup (h : BufferInv s) {devno : Nat} {b : BlockDevice}
    (hb : s.getBlockDeviceByDevno devno = some b) :
    b.blockSize = blockSize ∧ b.disk ∈ s.allDiskList ∧ s.devnoOf b.disk = devno := by
  obtain ⟨hsize, hdisk, hdevno⟩ := h.device b (List.mem_of_find?_eq_some hb)
  have hsame : b.devno = devno := by simpa using List.find?_some hb
  exact ⟨hsize, hdisk, hdevno.trans hsame⟩

theorem HeadInv.devno {d bh : Nat} (h : BufferInv s) (hhead : HeadInv s d bh) :
    (s.heads bh).devno = s.devnoOf d := by
  obtain ⟨b, hb, hdisk⟩ := hhead.device
  rw [← hdisk]
  exact (h.lookup hb).2.2.symm

/-- A buffer head is on the list of one disk. -/
theorem BufferInv.disk_unique (h : BufferInv s) {d d' bh : Nat} (hbh : bh ∈ s.headsOf d)
    (hbh' : bh ∈ s.headsOf d') : d = d' := by
  obtain ⟨b, hb, hdisk⟩ := (h.head d bh hbh).device
  obtain ⟨b', hb', hdisk'⟩ := (h.head d' bh hbh').device
  rw [hb] at hb'
  cases hb'
  exact hdisk.symm.trans hdisk'

/-- What a change of one buffer head on the list of disk `d0` must keep. -/
theorem BufferInv.set_head (h : BufferInv s) (hsame : s.SameDisks t) (hidle : ∀ d, t.Idle d)
    {d₀ bh₀ : Nat} (hbh₀ : bh₀ ∈ s.headsOf d₀) {head : BufferHead σ}
    (hheads : t.heads = Function.update s.heads bh₀ head)
    (hkeys : head.devno = (s.heads bh₀).devno ∧ head.lba = (s.heads bh₀).lba ∧
      head.size = (s.heads bh₀).size)
    (hunlocked : head.locked = false) (hvalid : head.dirty = true → head.uptodate = true)
    (hclean : head.uptodate = true → head.dirty = false →
      ∀ i < 2, head.data i = t.sectors d₀ (head.lba * 2 + i))
    (hsectors : ∀ d lba, (d = d₀ → lba ≠ (s.heads bh₀).lba) → lba < 2 ^ 31 →
      ∀ i < 2, t.sectors d (lba * 2 + i) = s.sectors d (lba * 2 + i)) : BufferInv t := by
  obtain ⟨hdevno, hlba, hsize⟩ := hkeys
  have hlbas : ∀ bh, (t.heads bh).lba = (s.heads bh).lba := by
    intro bh
    rw [hheads]
    by_cases heq : bh = bh₀
    · subst heq
      rw [Function.update_self, hlba]
    · rw [Function.update_of_ne heq]
  refine ⟨?_, hidle, ?_, ?_⟩
  · intro b hb
    rw [hsame.devices] at hb
    rw [hsame.list, hsame.devno]
    exact h.device b hb
  · intro d bh hbh
    rw [hsame.heads] at hbh
    have hold := h.head d bh hbh
    by_cases heq : bh = bh₀
    · subst heq
      have hd := h.disk_unique hbh hbh₀
      subst hd
      refine ⟨?_, ?_, ?_, ?_, ?_, ?_, ?_⟩
      · rw [hsame.next]
        exact hold.fresh
      · rw [hheads, Function.update_self, hdevno, hsame.lookup]
        exact hold.device
      · rw [hheads, Function.update_self, hsize]
        exact hold.size
      · rw [hlbas]
        exact hold.range
      · rw [hheads, Function.update_self]
        exact hunlocked
      · rw [hheads, Function.update_self]
        exact hvalid
      · rw [hheads, Function.update_self]
        exact hclean
    · have hother : t.heads bh = s.heads bh := by
        rw [hheads]
        exact Function.update_of_ne heq ..
      refine ⟨?_, ?_, ?_, ?_, ?_, ?_, ?_⟩
      · rw [hsame.next]
        exact hold.fresh
      · rw [hother, hsame.lookup]
        exact hold.device
      · rw [hother]
        exact hold.size
      · rw [hother]
        exact hold.range
      · rw [hother]
        exact hold.unlocked
      · rw [hother]
        exact hold.valid
      · intro hup hdirty i hi
        rw [hother] at hup hdirty ⊢
        rw [hsectors d _ _ hold.range i hi]
        · exact hold.clean hup hdirty i hi
        · intro hd hsameLba
          subst hd
          exact heq (h.unique d bh hbh bh₀ hbh₀ hsameLba)
  · intro d bh hbh bh' hbh' heq
    rw [hsame.heads] at hbh hbh'
    rw [hlbas, hlbas] at heq
    exact h.unique d bh hbh bh' hbh' heq

/-- The device number of a disk with a buffer finds that disk. -/
theorem BufferInv.lookup_of_mem (h : BufferInv s) {d bh : Nat} (hbh : bh ∈ s.headsOf d) :
    ∃ b, s.getBlockDeviceByDevno (s.devnoOf d) = some b ∧ b.disk = d := by
  have hhead := h.head d bh hbh
  rw [← hhead.devno h]
  exact hhead.device

/-- A change of one buffer head keeps the invariant when the new head shows the new contents of
its block, and the contents of all other blocks stay. -/
theorem CacheInv.set_head (h : CacheInv s view) (hsame : s.SameDisks t) (hidle : ∀ d, t.Idle d)
    {d₀ bh₀ : Nat} (hbh₀ : bh₀ ∈ s.headsOf d₀) {head : BufferHead σ}
    (hheads : t.heads = Function.update s.heads bh₀ head)
    (hkeys : head.devno = (s.heads bh₀).devno ∧ head.lba = (s.heads bh₀).lba ∧
      head.size = (s.heads bh₀).size)
    (hunlocked : head.locked = false) (hvalid : head.dirty = true → head.uptodate = true)
    (hclean : head.uptodate = true → head.dirty = false →
      ∀ i < 2, head.data i = t.sectors d₀ (head.lba * 2 + i))
    (hsectors : ∀ d lba, (d = d₀ → lba ≠ (s.heads bh₀).lba) → lba < 2 ^ 31 →
      ∀ i < 2, t.sectors d (lba * 2 + i) = s.sectors d (lba * 2 + i))
    (hshow : head.uptodate = true →
      ∀ i < 2, head.data i = view' (s.devnoOf d₀) (s.heads bh₀).lba i)
    (hstored : head.uptodate = false →
      ∀ i < 2, t.sectors d₀ ((s.heads bh₀).lba * 2 + i) =
        view' (s.devnoOf d₀) (s.heads bh₀).lba i)
    (hview : ∀ devno lba, (devno = s.devnoOf d₀ → lba ≠ (s.heads bh₀).lba) →
      view' devno lba = view devno lba) : CacheInv t view' := by
  refine ⟨h.toBufferInv.set_head hsame hidle hbh₀ hheads hkeys hunlocked hvalid hclean hsectors, ?_⟩
  intro devno b hb lba hlba
  rw [hsame.lookup] at hb
  have hdevno := (h.lookup hb).2.2
  have hself : t.heads bh₀ = head := by
    rw [hheads]
    exact Function.update_self ..
  by_cases hblock : b.disk = d₀ ∧ lba = (s.heads bh₀).lba
  · obtain ⟨hd, hl⟩ := hblock
    rw [hl, ← hdevno, hd]
    refine ⟨?_, ?_⟩
    · intro bh hbh hlbabh hup
      rw [hsame.heads] at hbh
      have heq : bh = bh₀ := by
        by_contra hne
        rw [hheads, Function.update_of_ne hne] at hlbabh
        exact hne (h.unique d₀ bh hbh bh₀ hbh₀ hlbabh)
      subst heq
      rw [hself] at hup ⊢
      exact hshow hup
    · intro hall
      refine hstored ?_
      have hstale := hall bh₀ (by rw [hsame.heads]; exact hbh₀) (by rw [hself]; exact hkeys.2.1)
      rwa [hself] at hstale
  · have hother : devno = s.devnoOf d₀ → lba ≠ (s.heads bh₀).lba := by
      intro heq hl
      obtain ⟨b₀, hb₀, hd₀⟩ := h.lookup_of_mem hbh₀
      rw [heq, hb₀] at hb
      cases hb
      exact hblock ⟨hd₀, hl⟩
    obtain ⟨hcached, hdisk⟩ := h.shows devno b hb lba hlba
    have hsector := hsectors b.disk lba (fun hd hl => hblock ⟨hd, hl⟩) hlba
    have hkept : ∀ bh ∈ s.headsOf b.disk, (t.heads bh).lba = lba → t.heads bh = s.heads bh := by
      intro bh hbh hl
      rw [hheads]
      refine Function.update_of_ne ?_ ..
      intro heq
      subst heq
      rw [hself, hkeys.2.1] at hl
      exact hblock ⟨h.disk_unique hbh hbh₀, hl.symm⟩
    rw [hview devno lba hother]
    refine ⟨?_, ?_⟩
    · intro bh hbh hl hup
      rw [hsame.heads] at hbh
      have hsamehead := hkept bh hbh hl
      rw [hsamehead] at hl hup ⊢
      exact hcached bh hbh hl hup
    · intro hall i hi
      rw [hsector i hi]
      refine hdisk ?_ i hi
      intro bh hbh hl
      have hne : bh ≠ bh₀ := by
        intro heq
        subst heq
        exact hblock ⟨h.disk_unique hbh hbh₀, hl.symm⟩
      have hsamehead : t.heads bh = s.heads bh := by
        rw [hheads]
        exact Function.update_of_ne hne ..
      have hstale := hall bh (by rw [hsame.heads]; exact hbh) (by rw [hsamehead]; exact hl)
      rwa [hsamehead] at hstale

/-! ## Finding and creating buffers -/

/-- The search finds the buffer of a block, when there is one. -/
theorem BufferInv.find_buffer (h : BufferInv s) (d lba : Nat) :
    (∃ bh ∈ s.headsOf d, (s.heads bh).lba = lba ∧ s.findBuffer d lba blockSize = some bh) ∨
      (s.findBuffer d lba blockSize = none ∧ ∀ bh ∈ s.headsOf d, (s.heads bh).lba ≠ lba) := by
  cases hfind : s.findBuffer d lba blockSize with
  | some bh =>
      have hmem : bh ∈ s.headsOf d := List.mem_of_find?_eq_some hfind
      have hkey := List.find?_some hfind
      simp only [decide_eq_true_eq] at hkey
      exact .inl ⟨bh, hmem, hkey.2.1, rfl⟩
  | none =>
      refine .inr ⟨rfl, ?_⟩
      intro bh hbh hlba
      have hnone := List.find?_eq_none.mp hfind bh hbh
      have hhead := h.head d bh hbh
      refine hnone ?_
      simpa using ⟨hhead.devno h, hlba, hhead.size⟩

/-- Counting a user of a buffer changes nothing that the invariant speaks of. -/
theorem CacheInv.count (h : CacheInv s view) {d bh : Nat} (hbh : bh ∈ s.headsOf d) (count : Int) :
    CacheInv (s.setHead bh { s.heads bh with count := count }) view := by
  have hhead := h.head d bh hbh
  obtain ⟨b, hb, hd⟩ := h.lookup_of_mem hbh
  have hshows := h.shows _ b hb _ hhead.range
  rw [hd] at hshows
  refine @CacheInv.set_head σ s _ view view h ⟨rfl, rfl, rfl, fun _ => rfl, fun _ => rfl⟩ h.idle d
    bh hbh { s.heads bh with count := count } rfl ⟨rfl, rfl, rfl⟩ hhead.unlocked hhead.valid
    hhead.clean (fun _ _ _ _ _ _ => rfl) ?_ ?_ (fun _ _ _ => rfl)
  · intro hup
    exact hshows.cached bh hbh rfl hup
  · intro hstale
    refine hshows.stored ?_
    intro bh' hbh' hlba
    rw [h.unique d bh' hbh' bh hbh hlba]
    exact hstale

/-- The buffer that `CreateBuffers` makes. -/
def BlockSystem.newHead (s : BlockSystem σ) (d lba : Nat) : BufferHead σ :=
  { devno := s.devnoOf d, lba := lba, size := blockSize, data := (s.heads s.nextHead).data
    uptodate := false, dirty := false, locked := false, count := 0 }

/-- A new buffer of a block that has none keeps the invariant. -/
theorem CacheInv.create (h : CacheInv s view) {devno lba : Nat} {b : BlockDevice}
    (hb : s.getBlockDeviceByDevno devno = some b) (hlba : lba < 2 ^ 31)
    (hnone : ∀ bh ∈ s.headsOf b.disk, (s.heads bh).lba ≠ lba)
    (hlookup : ∀ devno, t.getBlockDeviceByDevno devno = s.getBlockDeviceByDevno devno)
    (hdevices : t.allBlockDeviceList = s.allBlockDeviceList) (hlist : t.allDiskList = s.allDiskList)
    (hnext : t.nextHead = s.nextHead + 1) (hdevnos : ∀ d, t.devnoOf d = s.devnoOf d)
    (hidle : ∀ d, t.Idle d) (hsectors : t.sectors = s.sectors)
    (hheads : t.heads = Function.update s.heads s.nextHead (s.newHead b.disk lba))
    (hheadsOf : ∀ d bh, bh ∈ t.headsOf d ↔
      bh ∈ s.headsOf d ∨ d = b.disk ∧ bh = s.nextHead) : CacheInv t view := by
  have hnew : t.heads s.nextHead = s.newHead b.disk lba := by
    rw [hheads]
    exact Function.update_self ..
  have hold : ∀ d, ∀ bh ∈ s.headsOf d, t.heads bh = s.heads bh := by
    intro d bh hbh
    have hfresh := (h.head d bh hbh).fresh
    rw [hheads]
    exact Function.update_of_ne (Nat.ne_of_lt hfresh) ..
  have hdevno := (h.lookup hb).2.2
  refine ⟨⟨?_, hidle, ?_, ?_⟩, ?_⟩
  · intro b' hb'
    rw [hdevices] at hb'
    rw [hlist, hdevnos]
    exact h.device b' hb'
  · intro d bh hbh
    rcases (hheadsOf d bh).mp hbh with hbh | ⟨hd, hbhnew⟩
    · obtain ⟨hfresh, hdevice, hrest⟩ := h.head d bh hbh
      refine ⟨?_, ?_, ?_, ?_, ?_, ?_, ?_⟩
      · rw [hnext]
        exact Nat.lt_succ_of_lt hfresh
      · rw [hold d bh hbh, hlookup]
        exact hdevice
      · rw [hold d bh hbh]
        assumption
      · rw [hold d bh hbh]
        assumption
      · rw [hold d bh hbh]
        assumption
      · rw [hold d bh hbh]
        assumption
      · rw [hold d bh hbh, hsectors]
        assumption
    · subst hd hbhnew
      refine ⟨?_, ?_, ?_, ?_, ?_, ?_, ?_⟩
      · rw [hnext]
        exact Nat.lt_succ_self _
      · rw [hnew, hlookup, BlockSystem.newHead, hdevno]
        exact ⟨b, hb, rfl⟩
      · rw [hnew]
        rfl
      · rw [hnew]
        exact hlba
      · rw [hnew]
        rfl
      · rw [hnew]
        simp [BlockSystem.newHead]
      · rw [hnew]
        simp [BlockSystem.newHead]
  · intro d bh hbh bh' hbh' heq
    rcases (hheadsOf d bh).mp hbh with hbh | ⟨hd, hbhnew⟩
    · rcases (hheadsOf d bh').mp hbh' with hbh' | ⟨hd', hbhnew'⟩
      · rw [hold d bh hbh, hold d bh' hbh'] at heq
        exact h.unique d bh hbh bh' hbh' heq
      · subst hd' hbhnew'
        rw [hold _ bh hbh, hnew] at heq
        exact absurd heq (hnone bh hbh)
    · subst hd hbhnew
      rcases (hheadsOf b.disk bh').mp hbh' with hbh' | ⟨-, hbhnew'⟩
      · rw [hold _ bh' hbh', hnew] at heq
        exact absurd heq.symm (hnone bh' hbh')
      · exact hbhnew'.symm
  · intro devno' b' hb' lba' hlba'
    rw [hlookup] at hb'
    obtain ⟨hcached, hstored⟩ := h.shows devno' b' hb' lba' hlba'
    refine ⟨?_, ?_⟩
    · intro bh hbh hl hup
      rcases (hheadsOf b'.disk bh).mp hbh with hbh | ⟨-, hbhnew⟩
      · rw [hold _ bh hbh] at hl hup ⊢
        exact hcached bh hbh hl hup
      · subst hbhnew
        rw [hnew] at hup
        cases hup
    · intro hall
      rw [hsectors]
      refine hstored ?_
      intro bh hbh hl
      have hstale := hall bh ((hheadsOf _ bh).mpr (.inl hbh)) (by rw [hold _ bh hbh]; exact hl)
      rwa [hold _ bh hbh] at hstale

/-- What `GetBlock` finds or creates on a block device. -/
theorem CacheInv.get_block (h : CacheInv s view) {devno lba : Nat} {b : BlockDevice}
    (hb : s.getBlockDeviceByDevno devno = some b) (hlba : lba < 2 ^ 31) :
    ∃ t bh, s.getBlock devno lba = some (t, bh) ∧ CacheInv t view ∧ bh ∈ t.headsOf b.disk ∧
      (t.heads bh).lba = lba ∧ t.allBlockDeviceList = s.allBlockDeviceList := by
  have hsize := (h.lookup hb).1
  unfold BlockSystem.getBlock
  rw [hb, Option.bind_some, hsize]
  rcases h.find_buffer b.disk lba with ⟨bh, hbh, hl, hfind⟩ | ⟨hfind, hnone⟩
  · simp only [BlockSystem.getBufferFromDisk, hfind, Option.map_some]
    refine ⟨_, bh, rfl, h.count hbh _, hbh, ?_, rfl⟩
    simp [BlockSystem.setHead, hl]
  · simp only [BlockSystem.getBufferFromDisk, hfind, Option.map_none]
    have hcreate : ∃ t, s.createBuffers b.disk lba blockSize = some t ∧ CacheInv t view ∧
        s.nextHead ∈ t.headsOf b.disk ∧ (t.heads s.nextHead).lba = lba ∧
        t.allBlockDeviceList = s.allBlockDeviceList := by
      refine ⟨_, if_neg (by decide), h.create hb hlba hnone (fun _ => rfl) rfl rfl rfl ?_ ?_ rfl rfl
        ?_, ?_, ?_, rfl⟩
      · intro d
        by_cases hd : d = b.disk
        · subst hd
          simp [BlockSystem.devnoOf, BlockSystem.setDisk, BlockSystem.setHead]
        · simp [BlockSystem.devnoOf, BlockSystem.setDisk, BlockSystem.setHead, hd]
      · intro d
        have hold := h.idle d
        by_cases hd : d = b.disk
        · subst hd
          simpa [BlockSystem.Idle, BlockSystem.setDisk, BlockSystem.setHead] using hold
        · simpa [BlockSystem.Idle, BlockSystem.setDisk, BlockSystem.setHead, hd] using hold
      · intro d bh
        by_cases hd : d = b.disk
        · subst hd
          simp [BlockSystem.headsOf, BlockSystem.setDisk, BlockSystem.setHead]
        · simp [BlockSystem.headsOf, BlockSystem.setDisk, BlockSystem.setHead, hd]
      · simp [BlockSystem.headsOf, BlockSystem.setDisk, BlockSystem.setHead]
      · simp [BlockSystem.setDisk, BlockSystem.setHead]
    obtain ⟨t, hcreate, ht, hmem, hl, hdevices⟩ := hcreate
    rw [hcreate, Option.bind_some]
    rcases ht.find_buffer b.disk lba with ⟨bh, hbh, hl', hfind'⟩ | ⟨-, hnone'⟩
    · rw [hfind', Option.map_some]
      refine ⟨_, bh, rfl, ht.count hbh _, hbh, ?_, hdevices⟩
      simp [BlockSystem.setHead, hl']
    · exact absurd hl (hnone' _ hmem)

/-! ## Requests -/

/-- Serving a request keeps the disks and their buffers. -/
theorem same_disks_served (s : BlockSystem σ) (d : Nat) (onUp : Bool)
    (heads : Nat → BufferHead σ) (sectors : Nat → Nat → σ) :
    s.SameDisks { s with
      disks := Function.update s.disks d { s.disks d with requestQueue := ⟨[], [], onUp, none⟩ }
      heads := heads
      sectors := sectors } := by
  refine ⟨rfl, rfl, rfl, ?_, ?_⟩
  · intro d'
    by_cases hd : d' = d
    · subst hd
      simp [BlockSystem.devnoOf]
    · simp [BlockSystem.devnoOf, hd]
  · intro d'
    by_cases hd : d' = d
    · subst hd
      simp [BlockSystem.headsOf]
    · simp [BlockSystem.headsOf, hd]

/-- Serving a request leaves the queues idle. -/
theorem idle_served (h : BufferInv s) (d : Nat) (onUp : Bool) (heads : Nat → BufferHead σ)
    (sectors : Nat → Nat → σ) (d' : Nat) :
    BlockSystem.Idle { s with
      disks := Function.update s.disks d { s.disks d with requestQueue := ⟨[], [], onUp, none⟩ }
      heads := heads
      sectors := sectors } d' := by
  by_cases hd : d' = d
  · subst hd
    simp [BlockSystem.Idle]
  · simpa [BlockSystem.Idle, hd] using h.idle d'

/-- The request that `MakeRequest` makes for a buffer is served at once. -/
theorem BufferInv.make_request (h : BufferInv s) {d bh : Nat} (hbh : bh ∈ s.headsOf d)
    {rw : BlockCmd} (hneed : ¬ (rw = .write ∧ (s.heads bh).dirty = false ∨
      rw = .read ∧ (s.heads bh).uptodate = true)) :
    ∃ onUp, s.makeRequest rw bh = some { s with
      disks := Function.update s.disks d
        { s.disks d with requestQueue := ⟨[], [], onUp, none⟩ }
      heads := Function.update s.heads bh
        (s.served d ⟨bh, (s.heads bh).lba * 2, 2, rw⟩)
      sectors := (s.transfer d ⟨bh, (s.heads bh).lba * 2, 2, rw⟩).sectors } := by
  have hhead := h.head d bh hbh
  obtain ⟨b, hb, hd⟩ := hhead.device
  have hsize := (h.lookup hb).1
  obtain ⟨onUp, hidle⟩ := h.idle d
  have hrange := hhead.range
  have hwrap : wrap ((s.heads bh).lba * (blockSize / sectorSize)) = (s.heads bh).lba * 2 := by
    rw [show blockSize / sectorSize = 2 by decide]
    exact wrap_of_lt (by omega)
  have hlocked : (s.setLocked bh true).heads bh = { s.heads bh with locked := true } :=
    Function.update_self ..
  have hlookup : (s.setLocked bh true).getBlockDeviceByDevno (s.heads bh).devno = some b := hb
  refine ⟨!onUp, ?_⟩
  unfold BlockSystem.makeRequest
  simp only [hlocked, if_neg hneed, hlookup, hsize, hwrap, hd]
  refine (add_request_idle (s.setLocked bh true) d _ hidle).trans ?_
  cases rw <;>
    simp [BlockSystem.setLocked, BlockSystem.setHead, BlockSystem.served, BlockSystem.transfer]

/-- Reading a stale buffer makes it valid and changes no block. -/
theorem CacheInv.read_request (h : CacheInv s view) {d bh : Nat} (hbh : bh ∈ s.headsOf d)
    (hstale : (s.heads bh).uptodate = false) :
    ∃ t, s.makeRequest .read bh = some t ∧ CacheInv t view ∧ s.SameDisks t ∧
      (t.heads bh).lba = (s.heads bh).lba ∧ (t.heads bh).uptodate = true ∧
      (t.heads bh).locked = false := by
  have hhead := h.head d bh hbh
  obtain ⟨onUp, hmake⟩ := @BufferInv.make_request σ s h.toBufferInv d bh hbh .read (by simp [hstale])
  have hclean : (s.heads bh).dirty = false := by
    cases hdirty : (s.heads bh).dirty with
    | false => rfl
    | true =>
        have hup := hhead.valid hdirty
        rw [hstale] at hup
        cases hup
  obtain ⟨b, hb, hd⟩ := h.lookup_of_mem hbh
  have hshows := h.shows _ b hb _ hhead.range
  rw [hd] at hshows
  have hstored := hshows.stored (by
    intro bh' hbh' hl
    rw [h.unique d bh' hbh' bh hbh hl]
    exact hstale)
  have hserved : s.served d ⟨bh, (s.heads bh).lba * 2, 2, .read⟩ = { s.heads bh with
      data := fun i => if i < 2 then s.sectors d ((s.heads bh).lba * 2 + i) else (s.heads bh).data i
      uptodate := true
      locked := false
      count := (s.heads bh).count - 1 } := by
    simp [BlockSystem.served, BlockSystem.transfer, BlockSystem.setHead]
  have hsame := same_disks_served s d onUp
    (Function.update s.heads bh (s.served d ⟨bh, (s.heads bh).lba * 2, 2, .read⟩))
    (s.transfer d ⟨bh, (s.heads bh).lba * 2, 2, .read⟩).sectors
  refine ⟨_, hmake, ?_, hsame, ?_, ?_, ?_⟩
  · refine h.set_head hsame (idle_served h.toBufferInv d onUp _ _) hbh rfl ?_ ?_ ?_ ?_
      (fun _ _ _ _ _ _ => rfl) ?_ ?_ (fun _ _ _ => rfl)
    · rw [hserved]
      exact ⟨rfl, rfl, rfl⟩
    · rw [hserved]
    · rw [hserved]
      intro _
      rfl
    · rw [hserved]
      intro _ _ i hi
      exact if_pos hi
    · rw [hserved]
      intro _ i hi
      exact (if_pos hi).trans (hstored i hi)
    · rw [hserved]
      exact nofun
  · simp [hserved]
  · simp [hserved]
  · simp [hserved]

/-- Writing a dirty buffer back makes it clean and changes no block. -/
theorem CacheInv.write_request (h : CacheInv s view) {d bh : Nat} (hbh : bh ∈ s.headsOf d)
    (hdirty : (s.heads bh).dirty = true) :
    ∃ t, s.makeRequest .write bh = some t ∧ CacheInv t view ∧ s.SameDisks t ∧
      t.heads = Function.update s.heads bh (t.heads bh) ∧ (t.heads bh).lba = (s.heads bh).lba ∧
      (t.heads bh).uptodate = true ∧ (t.heads bh).dirty = false ∧ (t.heads bh).locked = false := by
  have hhead := h.head d bh hbh
  have hup := hhead.valid hdirty
  have hrange := hhead.range
  obtain ⟨onUp, hmake⟩ := @BufferInv.make_request σ s h.toBufferInv d bh hbh .write (by simp [hdirty])
  obtain ⟨b, hb, hd⟩ := h.lookup_of_mem hbh
  have hshows := h.shows _ b hb _ hhead.range
  rw [hd] at hshows
  have hserved : s.served d ⟨bh, (s.heads bh).lba * 2, 2, .write⟩ = { s.heads bh with
      uptodate := true
      dirty := false
      locked := false
      count := (s.heads bh).count - 1 } := by
    simp [BlockSystem.served, BlockSystem.transfer]
  have hsector : ∀ d' sector, (s.transfer d ⟨bh, (s.heads bh).lba * 2, 2, .write⟩).sectors d' sector =
      if d' = d ∧ (s.heads bh).lba * 2 ≤ sector ∧ sector < (s.heads bh).lba * 2 + 2 then
        (s.heads bh).data (sector - (s.heads bh).lba * 2)
      else s.sectors d' sector := by
    intro d' sector
    by_cases hd' : d' = d
    · subst hd'
      simp [BlockSystem.transfer]
    · simp [BlockSystem.transfer, hd']
  have hsame := same_disks_served s d onUp
    (Function.update s.heads bh (s.served d ⟨bh, (s.heads bh).lba * 2, 2, .write⟩))
    (s.transfer d ⟨bh, (s.heads bh).lba * 2, 2, .write⟩).sectors
  refine ⟨_, hmake, ?_, hsame, ?_, ?_, ?_, ?_, ?_⟩
  · refine h.set_head hsame (idle_served h.toBufferInv d onUp _ _) hbh rfl ?_ ?_ ?_ ?_ ?_ ?_ ?_
      (fun _ _ _ => rfl)
    · rw [hserved]
      exact ⟨rfl, rfl, rfl⟩
    · rw [hserved]
    · rw [hserved]
      intro _
      rfl
    · rw [hserved]
      intro _ _ i hi
      simp only [hsector]
      rw [if_pos ⟨trivial, by omega, by omega⟩, Nat.add_sub_cancel_left]
    · intro d' lba hne hlba i hi
      simp only [hsector]
      refine if_neg ?_
      intro ⟨hd', hle, hlt⟩
      have := hne hd'
      omega
    · rw [hserved]
      intro _ i hi
      exact hshows.cached bh hbh rfl hup i hi
    · rw [hserved]
      exact nofun
  · simp
  · simp [hserved]
  · simp [hserved]
  · simp [hserved]
  · simp [hserved]

/-! ## Reading, writing and synchronising -/

theorem BlockSystem.SameDisks.trans {r : BlockSystem σ} (h : r.SameDisks s) (h' : s.SameDisks t) :
    r.SameDisks t :=
  ⟨h'.devices.trans h.devices, h'.list.trans h.list, h'.next.trans h.next,
    fun d => (h'.devno d).trans (h.devno d), fun d => (h'.heads d).trans (h.heads d)⟩

/-- `Bread` returns a buffer with the contents of its block. -/
theorem CacheInv.bread (h : CacheInv s view) {devno lba : Nat} {b : BlockDevice}
    (hb : s.getBlockDeviceByDevno devno = some b) (hlba : lba < 2 ^ 31) :
    ∃ t bh, s.bread devno lba = some (t, some bh) ∧ CacheInv t view ∧
      (∀ i < 2, (t.heads bh).data i = view devno lba i) ∧
      t.allBlockDeviceList = s.allBlockDeviceList := by
  obtain ⟨r, bh, hget, hr, hbh, hl, hdevices⟩ := h.get_block hb hlba
  have hlookup : r.getBlockDeviceByDevno devno = some b := by
    rw [BlockSystem.getBlockDeviceByDevno, hdevices]
    exact hb
  unfold BlockSystem.bread
  rw [hget, Option.bind_some]
  simp only
  by_cases hup : (r.heads bh).uptodate = true
  · rw [if_pos hup]
    have hshows := hr.shows devno b hlookup lba hlba
    exact ⟨r, bh, rfl, hr, hshows.cached bh hbh hl hup, hdevices⟩
  · obtain ⟨t, hmake, ht, hsame, hl', hup', hlocked⟩ :=
      hr.read_request hbh (by simpa using hup)
    rw [if_neg hup, hmake, Option.bind_some, BlockSystem.waitOnBuffer, hlocked,
      if_neg Bool.false_ne_true, Option.bind_some, if_pos hup']
    refine ⟨t, bh, rfl, ht, ?_, hsame.devices.trans hdevices⟩
    have hshows := ht.shows devno b (by rw [hsame.lookup]; exact hlookup) lba hlba
    exact hshows.cached bh (by rw [hsame.heads]; exact hbh) (hl'.trans hl) hup'

/-- The contents of the blocks after a write. -/
def writeBlock (view : Nat → Nat → Nat → σ) (devno lba : Nat) (buffer : Nat → σ) :
    Nat → Nat → Nat → σ :=
  fun devno' lba' => if devno' = devno ∧ lba' = lba then buffer else view devno' lba'

/-- `Bwrite` changes the contents of its block and of no other. -/
theorem CacheInv.bwrite (h : CacheInv s view) {devno lba : Nat} {b : BlockDevice}
    (hb : s.getBlockDeviceByDevno devno = some b) (hlba : lba < 2 ^ 31) (buffer : Nat → σ) :
    ∃ t bh, s.bwrite devno lba buffer = some (t, bh) ∧
      CacheInv t (writeBlock view devno lba buffer) ∧
      t.allBlockDeviceList = s.allBlockDeviceList := by
  obtain ⟨r, bh, hget, hr, hbh, hl, hdevices⟩ := h.get_block hb hlba
  have hlookup : r.getBlockDeviceByDevno devno = some b := by
    rw [BlockSystem.getBlockDeviceByDevno, hdevices]
    exact hb
  have hdevno := (hr.lookup hlookup).2.2
  have hhead := hr.head b.disk bh hbh
  unfold BlockSystem.bwrite
  rw [hget, Option.bind_some]
  simp only [BlockSystem.waitOnBuffer, hhead.unlocked]
  refine ⟨_, bh, rfl, ?_, hdevices⟩
  refine hr.set_head ⟨rfl, rfl, rfl, fun _ => rfl, fun _ => rfl⟩ hr.idle hbh rfl ⟨rfl, rfl, rfl⟩
    hhead.unlocked (fun _ => rfl) nofun (fun _ _ _ _ _ _ => rfl) ?_ nofun ?_
  · intro _ i hi
    rw [hdevno, hl, writeBlock, if_pos ⟨rfl, rfl⟩]
    exact if_pos hi
  · intro devno' lba' hne
    refine if_neg ?_
    intro ⟨hd, hl'⟩
    rw [hdevno, hl] at hne
    exact hne hd hl'

/-- What writing buffers back keeps of every buffer. -/
structure WrittenBack (s t : BlockSystem σ) : Prop where
  lba : ∀ bh, (t.heads bh).lba = (s.heads bh).lba
  valid : ∀ bh, (s.heads bh).uptodate = true → (t.heads bh).uptodate = true
  clean : ∀ bh, (s.heads bh).dirty = false → (t.heads bh).dirty = false

theorem WrittenBack.refl (s : BlockSystem σ) : WrittenBack s s :=
  ⟨fun _ => rfl, fun _ h => h, fun _ h => h⟩

theorem WrittenBack.trans {r : BlockSystem σ} (h : WrittenBack r s) (h' : WrittenBack s t) :
    WrittenBack r t :=
  ⟨fun bh => (h'.lba bh).trans (h.lba bh), fun bh hup => h'.valid bh (h.valid bh hup),
    fun bh hclean => h'.clean bh (h.clean bh hclean)⟩

theorem BlockSystem.SameDisks.refl (s : BlockSystem σ) : s.SameDisks s :=
  ⟨rfl, rfl, rfl, fun _ => rfl, fun _ => rfl⟩

/-- `BsyncOne` makes a buffer clean and changes no block. -/
theorem CacheInv.bsync_one (h : CacheInv s view) {d bh : Nat} (hbh : bh ∈ s.headsOf d) :
    ∃ t, s.bsyncOne bh = some t ∧ CacheInv t view ∧ s.SameDisks t ∧ WrittenBack s t ∧
      (t.heads bh).dirty = false := by
  unfold BlockSystem.bsyncOne
  by_cases hdirty : (s.heads bh).dirty = false
  · rw [if_pos hdirty]
    exact ⟨s, rfl, h, .refl s, .refl s, hdirty⟩
  · obtain ⟨t, hmake, ht, hsame, hheads, hlba, hup, hclean, hlocked⟩ :=
      h.write_request hbh (by simpa using hdirty)
    have hother : ∀ bh', bh' ≠ bh → t.heads bh' = s.heads bh' := by
      intro bh' hne
      rw [hheads]
      exact Function.update_of_ne hne ..
    rw [if_neg hdirty, hmake, Option.bind_some, BlockSystem.waitOnBuffer, hlocked,
      if_neg Bool.false_ne_true, Option.bind_some, if_pos hclean]
    refine ⟨t, rfl, ht, hsame, ⟨?_, ?_, ?_⟩, hclean⟩
    · intro bh'
      by_cases heq : bh' = bh
      · rw [heq, hlba]
      · rw [hother bh' heq]
    · intro bh' hup'
      by_cases heq : bh' = bh
      · rw [heq, hup]
      · rwa [hother bh' heq]
    · intro bh' hclean'
      by_cases heq : bh' = bh
      · rw [heq, hclean]
      · rwa [hother bh' heq]

/-- The loop over the buffers of a disk makes them clean. -/
theorem CacheInv.bsync_heads (h : CacheInv s view) {d : Nat} {heads : List Nat}
    (hheads : ∀ bh ∈ heads, bh ∈ s.headsOf d) :
    ∃ t, BlockSystem.bsyncHeads heads s = some t ∧ CacheInv t view ∧ s.SameDisks t ∧
      WrittenBack s t ∧ ∀ bh ∈ heads, (t.heads bh).dirty = false := by
  induction heads generalizing s with
  | nil => exact ⟨s, rfl, h, .refl s, .refl s, nofun⟩
  | cons bh rest ih =>
      obtain ⟨r, hone, hr, hsame, hback, hclean⟩ := h.bsync_one (hheads bh List.mem_cons_self)
      obtain ⟨t, hrest, ht, hsame', hback', hcleans⟩ := ih hr (by
        intro bh' hbh'
        rw [hsame.heads]
        exact hheads bh' (List.mem_cons_of_mem bh hbh'))
      refine ⟨t, ?_, ht, hsame.trans hsame', hback.trans hback', ?_⟩
      · rw [BlockSystem.bsyncHeads, hone]
        exact hrest
      · intro bh' hbh'
        rcases List.mem_cons.mp hbh' with heq | hmem
        · rw [heq]
          exact hback'.clean bh hclean
        · exact hcleans bh' hmem

/-- The loop over the disks makes their buffers clean. -/
theorem CacheInv.bsync_disks (h : CacheInv s view) (disks : List Nat) :
    ∃ t, BlockSystem.bsyncDisks disks s = some t ∧ CacheInv t view ∧ s.SameDisks t ∧
      WrittenBack s t ∧ ∀ d ∈ disks, ∀ bh ∈ s.headsOf d, (t.heads bh).dirty = false := by
  induction disks generalizing s with
  | nil => exact ⟨s, rfl, h, .refl s, .refl s, nofun⟩
  | cons d rest ih =>
      obtain ⟨r, hone, hr, hsame, hback, hclean⟩ :=
        @CacheInv.bsync_heads σ s view h d (s.headsOf d) fun bh hbh => hbh
      obtain ⟨t, hrest, ht, hsame', hback', hcleans⟩ := ih hr
      refine ⟨t, ?_, ht, hsame.trans hsame', hback.trans hback', ?_⟩
      · rw [BlockSystem.bsyncDisks]
        exact (congrArg (Option.bind · _) hone).trans hrest
      · intro d' hd' bh hbh
        rcases List.mem_cons.mp hd' with heq | hmem
        · subst heq
          exact hback'.clean bh (hclean bh hbh)
        · exact hcleans d' hmem bh (by rw [hsame.heads]; exact hbh)

/-- `Bsync` changes no block, makes every buffer clean and brings every dirty block to its
disk. -/
theorem CacheInv.bsync (h : CacheInv s view) :
    ∃ t, s.bsync = some t ∧ CacheInv t view ∧ s.SameDisks t ∧
      ∀ d, ∀ bh ∈ s.headsOf d, (t.heads bh).lba = (s.heads bh).lba ∧
        (t.heads bh).dirty = false ∧
        ((s.heads bh).dirty = true → ∀ i < 2,
          (t.heads bh).data i = t.sectors d ((s.heads bh).lba * 2 + i)) := by
  obtain ⟨t, hsync, ht, hsame, hback, hclean⟩ := h.bsync_disks s.allDiskList
  refine ⟨t, hsync, ht, hsame, ?_⟩
  intro d bh hbh
  obtain ⟨b, hb, hd⟩ := h.lookup_of_mem hbh
  have hdirty := hclean d (hd ▸ (h.lookup hb).2.1) bh hbh
  refine ⟨hback.lba bh, hdirty, ?_⟩
  intro hold
  have hup := hback.valid bh ((h.head d bh hbh).valid hold)
  rw [← hback.lba bh]
  exact (ht.head d bh (by rw [hsame.heads]; exact hbh)).clean hup hdirty

end

end XBook
