import XBook.Fs.DescriptorRuns

/-!
# The reference counts of the devices

`DeviceOpen` and `DeviceClose` of `kernel/device.c`, called directly or by `BOFS_Open`, `BOFS_Close`
and `SysFork` for device files, over the descriptor tables of `XBook.Fs.Descriptor`. Each call is
one step. A driver whose `open` fails leaves the count raised, an open without a descriptor opens
what it finds in front of the table of its task, and a `DeviceClose` without its `DeviceOpen` takes
the reference of another: `devices_balanced` is about the runs without these.
-/

namespace XBook.Files

open Tally Transition FileState

variable {τ : Type*}

/-- A call of `DeviceOpen` or `DeviceClose` for a device, with the reference count before and after
it, whether the driver's `open` or `close` has run, and whether it is a `DeviceOpen` that fails. -/
structure DeviceCall where
  before : Int32
  after : Int32
  opened : Bool
  closed : Bool
  failed : Bool
  deriving DecidableEq

/-- The descriptor tables and the devices. `node` is the `blocks[0]` of the inode where the entry is
a device file, `direct` the number of direct opens that have not been closed. -/
structure DeviceFiles (τ : Type*) where
  files : FileState τ
  node : Fin maxFdNr → Option Int32
  references : Int32 → Option Int32
  direct : Int32 → Nat
  calls : List DeviceCall

namespace DeviceFiles

/-- The devices of the drivers, and nothing open. -/
def init (live : τ → Bool) (registered : Int32 → Bool) : DeviceFiles τ :=
  { files := .init live
    node := fun _ => none
    references := fun d => if registered d then some 0 else none
    direct := fun _ => 0
    calls := [] }

/-- The count of a device after a call. -/
def counted (s : DeviceFiles τ) (d : Int32) (call : DeviceCall) : DeviceFiles τ :=
  { s with
    references := Function.update s.references d (some call.after)
    calls := call :: s.calls }

/-- `DeviceOpen`, where `works` tells whether the `open` of the driver does, and whether it
succeeds. -/
def deviceOpen (s : DeviceFiles τ) (d : Int32) (works : Bool) : DeviceFiles τ × Bool :=
  match s.references d with
  | none => (s, false)
  | some n =>
      if 0 ≤ n then
        let opened : Bool := n + 1 = 1
        (s.counted d ⟨n, n + 1, opened, false, opened && !works⟩, !(opened && !works))
      else (s.counted d ⟨n, n, false, false, true⟩, false)

/-- `DeviceClose`, and whether it has lowered the count. -/
def deviceClose (s : DeviceFiles τ) (d : Int32) : DeviceFiles τ × Bool :=
  match s.references d with
  | none => (s, false)
  | some n =>
      if 0 < n then (s.counted d ⟨n, n - 1, false, n - 1 = 0, false⟩, true)
      else (s.counted d ⟨n, n, false, false, false⟩, false)

/-- A direct `DeviceOpen`. -/
def openDirect (s : DeviceFiles τ) (d : Int32) (works : Bool) : DeviceFiles τ :=
  let r := s.deviceOpen d works
  { r.1 with direct := if r.2 then Function.update s.direct d (s.direct d + 1) else s.direct }

/-- A direct `DeviceClose`. -/
def closeDirect (s : DeviceFiles τ) (d : Int32) : DeviceFiles τ :=
  let r := s.deviceClose d
  { r.1 with direct := if r.2 then Function.update s.direct d (s.direct d - 1) else s.direct }

variable [DecidableEq τ]

/-- `BOFS_OpenFile` and `BOFS_CreateFile`, from where the file is loaded. -/
def openEntry (s : DeviceFiles τ) (t : τ) (flags : UInt32) (device : Option Int32) :
    DeviceFiles τ × Option (Fin maxOpenFiles) :=
  let node := match s.files.allocFdGlobal with
    | none => s.node
    | some (_, fd) => Function.update s.node fd device
  ({ s with files := (s.files.openFile t flags).1, node }, (s.files.openFile t flags).2)

/-- The end of `BOFS_Open`. The file is a device or another one, and `loaded` tells whether it could
be loaded. Without a descriptor the device that is opened is what stands in front of `fdTable`. -/
def openFile (s : DeviceFiles τ) (t : τ) (flags : UInt32) (device : Option Int32) (loaded : Bool)
    (stray : Int32) (works : Bool) : DeviceFiles τ :=
  let r := if loaded then s.openEntry t flags device else (s, none)
  match device with
  | none => r.1
  | some d => (r.1.deviceOpen (if r.2.isSome then d else stray) works).1

/-- `BOFS_Close`. -/
def close (s : DeviceFiles τ) (t : τ) (localFd : Fin maxOpenFiles) : DeviceFiles τ :=
  match s.files.fdTable t localFd with
  | none => s
  | some fd =>
      let s := match s.node fd with
        | none => s
        | some d => (s.deviceClose d).1
      { s with files := s.files.close t localFd }

/-- The body of the loop of `BOFS_UpdateInodeOpenCounts`. -/
def updateCount (works : Fin maxOpenFiles → Bool) (t : τ) (s : DeviceFiles τ)
    (localFd : Fin maxOpenFiles) : DeviceFiles τ :=
  let s' := { s with files := s.files.updateCount t localFd }
  match (s.files.fdTable t localFd).bind s.node with
  | none => s'
  | some d => (s'.deviceOpen d (works localFd)).1

/-- Some rounds of the loop. -/
def updateRounds (works : Fin maxOpenFiles → Bool) (t : τ) (s : DeviceFiles τ) :
    Nat → DeviceFiles τ
  | 0 => s
  | n + 1 =>
      if h : n < maxOpenFiles then updateCount works t (updateRounds works t s n) ⟨n, h⟩
      else updateRounds works t s n

/-- `SysFork`. -/
def fork (s : DeviceFiles τ) (parent child : τ) (works : Fin maxOpenFiles → Bool) :
    DeviceFiles τ :=
  updateRounds works child { s with files := s.files.copyTask parent child } maxOpenFiles

end DeviceFiles

/-- A call. -/
inductive DeviceOp (τ : Type*) where
  | deviceOpen (d : Int32) (works : Bool)
  | deviceClose (d : Int32)
  | open (t : τ) (flags : UInt32) (device : Option Int32) (loaded : Bool) (stray : Int32)
      (works : Bool)
  | close (t : τ) (fd : Int)
  | fork (parent child : τ) (works : Fin maxOpenFiles → Bool)

section

variable [DecidableEq τ]

/-- One call. -/
def deviceStep (s : DeviceFiles τ) : DeviceOp τ → Option (DeviceFiles τ)
  | .deviceOpen d works => some (s.openDirect d works)
  | .deviceClose d => some (s.closeDirect d)
  | .open t flags device loaded stray works =>
      if s.files.live t ∧ flags &&& openMask = flags ∧ flags &&& accessMask ≠ 0 then
        some (s.openFile t flags device loaded stray works)
      else none
  | .close t fd =>
      if s.files.live t then
        if 0 ≤ fd then
          if h : fd.toNat < maxOpenFiles then some (s.close t ⟨fd.toNat, h⟩) else some s
        else some s
      else none
  | .fork parent child works =>
      if s.files.live parent ∧ s.files.live child = false then some (s.fork parent child works)
      else none

end

/-! ## The balance -/

/-- The descriptor of a live task holds the device. -/
def Holds (x : FileState τ) (node : Fin maxFdNr → Option Int32) (d : Int32)
    (p : τ × Fin maxOpenFiles) : Prop :=
  x.live p.1 = true ∧ (x.fdTable p.1 p.2).bind node = some d

instance (x : FileState τ) (node : Fin maxFdNr → Option Int32) (d : Int32)
    (p : τ × Fin maxOpenFiles) : Decidable (Holds x node d p) :=
  inferInstanceAs (Decidable (_ ∧ _))

/-- The number of descriptors of live tasks that hold the device. -/
def holders [Fintype τ] (x : FileState τ) (node : Fin maxFdNr → Option Int32) (d : Int32) : Nat :=
  tally fun p => if Holds x node d p then 1 else 0

/-- The driver's `open` has run just when the count has gone from 0 to 1, its `close` just when the
count has come back to 0, and a `DeviceOpen` that has failed has left the count. -/
structure DeviceCall.Right (call : DeviceCall) : Prop where
  opened : call.opened = true ↔ call.before = 0 ∧ call.after = 1
  closed : call.closed = true ↔ call.before ≠ 0 ∧ call.after = 0
  failed : call.failed = true → call.after = call.before

/-- The count of each device is the number of direct opens and of descriptors that hold it. -/
structure DevicesBalanced [Fintype τ] (s : DeviceFiles τ) : Prop where
  references : ∀ d n, s.references d = some n →
    n.toInt = s.direct d + holders s.files s.node d
  calls : ∀ call ∈ s.calls, call.Right

/-- The `open` of the driver works if it runs, and the count does not overflow. -/
def OpenOk (s : DeviceFiles τ) (d : Int32) (works : Bool) : Prop :=
  ∀ n, s.references d = some n → (n = 0 → works = true) ∧ n.toInt + 1 < 2 ^ 31

/-- The call keeps the balance. -/
def deviceGuard [Fintype τ] [DecidableEq τ] (s : DeviceFiles τ) : DeviceOp τ → Prop
  | .deviceOpen d works => OpenOk s d works
  | .deviceClose d => s.direct d = 0 → ∀ n, s.references d = some n → n = 0
  | .open t _ none loaded _ _ => loaded = true → s.files.HasSlot t ∨ s.files.TableFull
  | .open t _ (some d) loaded _ works =>
      loaded = true ∧ s.files.HasSlot t ∧ ¬s.files.TableFull ∧ OpenOk s d works
  | .close _ _ => True
  | .fork parent child _ => ∀ i d, (s.files.fdTable parent i).bind s.node = some d →
      s.direct d + holders (s.files.copyTask parent child) s.node d < 2 ^ 31

/-! ## One call -/

variable {s : DeviceFiles τ} {d : Int32} {n : Int32}

/-- A `DeviceOpen` that raises the count. -/
theorem device_open_spec {works : Bool} (hn : s.references d = some n) (hpos : 0 ≤ n.toInt)
    (hok : OpenOk s d works) : ∃ call : DeviceCall, call.after.toInt = n.toInt + 1 ∧ call.Right ∧
      s.deviceOpen d works = (s.counted d call, true) := by
  obtain ⟨hworks, hroom⟩ := hok n hn
  have hafter : (n + 1).toInt = n.toInt + 1 := by
    rw [Int32.toInt_add, show (1 : Int32).toInt = 1 from rfl]
    exact Int.bmod_eq_of_le (by omega) (by omega)
  have hone : n + 1 = 1 ↔ n = 0 := by
    rw [← Int32.toInt_inj, ← Int32.toInt_inj, hafter]
    show n.toInt + 1 = 1 ↔ n.toInt = 0
    omega
  have hzero : n + 1 ≠ 0 := by
    rw [ne_eq, ← Int32.toInt_inj, hafter]
    show ¬n.toInt + 1 = 0
    omega
  have hfailed : (decide (n + 1 = 1) && !works) = false := by
    by_cases h1 : n + 1 = 1
    · rw [hworks (hone.mp h1), Bool.not_true, Bool.and_false]
    · rw [decide_eq_false h1, Bool.false_and]
  refine ⟨⟨n, n + 1, decide (n + 1 = 1), false, decide (n + 1 = 1) && !works⟩, hafter,
    ⟨?_, ?_, fun hfail => ?_⟩, ?_⟩
  · rw [decide_eq_true_iff]
    exact ⟨fun h1 => ⟨hone.mp h1, h1⟩, fun h => h.2⟩
  · exact iff_of_false Bool.false_ne_true fun h => hzero h.2
  · rw [hfailed] at hfail
    cases hfail
  · rw [DeviceFiles.deviceOpen, hn]
    dsimp only
    have hle : (0 : Int32) ≤ n := Int32.le_iff_toInt_le.mpr hpos
    rw [if_pos hle]
    exact congrArg (Prod.mk _) (by rw [hfailed]; rfl)

/-- The tables are not part of it. -/
theorem device_open_frame (s : DeviceFiles τ) (d : Int32) (works : Bool) :
    (s.deviceOpen d works).1.files = s.files ∧ (s.deviceOpen d works).1.node = s.node ∧
      (s.deviceOpen d works).1.direct = s.direct := by
  rw [DeviceFiles.deviceOpen]
  split
  · exact ⟨rfl, rfl, rfl⟩
  · split
    · exact ⟨rfl, rfl, rfl⟩
    · exact ⟨rfl, rfl, rfl⟩

theorem device_close_files (s : DeviceFiles τ) (d : Int32) :
    (s.deviceClose d).1.files = s.files := by
  rw [DeviceFiles.deviceClose]
  split
  · rfl
  · split <;> rfl

/-- A `DeviceClose` that lowers it. -/
theorem device_close_spec (hn : s.references d = some n) (hpos : 0 < n.toInt) :
    ∃ call : DeviceCall, call.after.toInt = n.toInt - 1 ∧ call.Right ∧
      s.deviceClose d = (s.counted d call, true) := by
  have hlt := n.toInt_lt
  have hafter : (n - 1).toInt = n.toInt - 1 := by
    rw [Int32.toInt_sub, show (1 : Int32).toInt = 1 from rfl]
    exact Int.bmod_eq_of_le (by omega) (by omega)
  have hne : n ≠ 0 := by
    rintro rfl
    exact absurd hpos (by decide)
  refine ⟨⟨n, n - 1, false, decide (n - 1 = 0), false⟩, hafter, ⟨?_, ?_, fun hfail => ?_⟩, ?_⟩
  · exact iff_of_false Bool.false_ne_true fun h => hne h.1
  · rw [decide_eq_true_iff]
    exact ⟨fun h0 => ⟨hne, h0⟩, fun h => h.2⟩
  · cases hfail
  · rw [DeviceFiles.deviceClose, hn]
    dsimp only
    have hlt0 : (0 : Int32) < n := Int32.lt_iff_toInt_lt.mpr hpos
    rw [if_pos hlt0]

/-- A `DeviceClose` of a device that is not open. -/
theorem device_close_zero (hn : s.references d = some 0) :
    ∃ call : DeviceCall, call.after = 0 ∧ call.Right ∧
      s.deviceClose d = (s.counted d call, false) := by
  refine ⟨⟨0, 0, false, false, false⟩, rfl, ⟨by decide, by decide, fun _ => rfl⟩, ?_⟩
  rw [DeviceFiles.deviceClose, hn]
  rfl

/-! ## The descriptors -/

section

variable {x y : FileState τ} {node : Fin maxFdNr → Option Int32}

variable [Fintype τ]

theorem holders_congr (hlive : x.live = y.live) (htable : x.fdTable = y.fdTable) :
    holders x node d = holders y node d := by
  refine congrArg tally (funext fun p => if_congr ?_ rfl rfl)
  rw [Holds, Holds, hlive, htable]

/-- An entry that no live task names can become any device. -/
theorem holders_node {fd : Fin maxFdNr} (hfree : ∀ t i, x.live t = true → x.fdTable t i ≠ some fd)
    (device : Option Int32) : holders x (Function.update node fd device) d = holders x node d := by
  refine congrArg tally (funext fun p => if_congr (and_congr_right fun hlive => ?_) rfl rfl)
  cases hfd : x.fdTable p.1 p.2 with
  | none => exact Iff.rfl
  | some g =>
      have hne : g ≠ fd := fun heq => hfree p.1 p.2 hlive (heq ▸ hfd)
      show Function.update node fd device g = some d ↔ node g = some d
      rw [Function.update_of_ne hne]

variable [DecidableEq τ] {t : τ} {i : Fin maxOpenFiles}

/-- Storing a descriptor changes the numbers by that descriptor. -/
theorem setLocal_holders (hlive : x.live t = true) (v : Option (Fin maxFdNr))
    (node : Fin maxFdNr → Option Int32) (d : Int32) :
    holders (x.setLocal t i v) node d + (if (x.fdTable t i).bind node = some d then 1 else 0) =
      holders x node d + if v.bind node = some d then 1 else 0 := by
  have heq : (fun p => if Holds (x.setLocal t i v) node d p then 1 else 0) =
      Function.update (fun p => if Holds x node d p then 1 else 0) (t, i)
        (if v.bind node = some d then 1 else 0) := by
    funext ⟨t', i'⟩
    simp only [Function.update_apply, Holds, setLocal_live, setLocal_fdTable, Prod.mk.injEq]
    by_cases hp : t' = t ∧ i' = i
    · obtain ⟨rfl, rfl⟩ := hp
      simp [hlive]
    · simp only [if_neg hp]
      exact if_congr Iff.rfl rfl rfl
  have hsum := tally_update (fun p => if Holds x node d p then 1 else 0) (t, i)
    (if v.bind node = some d then 1 else 0)
  rw [← heq] at hsum
  simpa [holders, Holds, hlive] using hsum

/-- Letting in the next descriptor of a task. -/
theorem restrict_holders (hlive : x.live t = true) {k : Nat} (hk : k < maxOpenFiles)
    (node : Fin maxFdNr → Option Int32) (d : Int32) :
    holders (x.restrict t fun i => i.val < k + 1) node d =
      holders (x.restrict t fun i => i.val < k) node d +
        if (x.fdTable t ⟨k, hk⟩).bind node = some d then 1 else 0 := by
  have hnone : (x.restrict t fun i => i.val < k).fdTable t ⟨k, hk⟩ = none := by
    rw [restrict_fdTable, if_pos ⟨rfl, decide_eq_false (Nat.lt_irrefl k)⟩]
  have htable : (x.restrict t fun i => i.val < k + 1).fdTable =
      ((x.restrict t fun i => i.val < k).setLocal t ⟨k, hk⟩ (x.fdTable t ⟨k, hk⟩)).fdTable := by
    funext t' i
    rw [setLocal_fdTable, restrict_fdTable, restrict_fdTable]
    by_cases hsame : t' = t ∧ i = ⟨k, hk⟩
    · rw [if_pos hsame, hsame.1, hsame.2, if_neg]
      exact fun h => absurd (decide_eq_true (Nat.lt_succ_self k)) (ne_true_of_eq_false h.2)
    · rw [if_neg hsame]
      refine if_congr (and_congr_right fun ht => ?_) rfl rfl
      have hne : i.val ≠ k := fun hi => hsame ⟨ht, Fin.ext hi⟩
      rw [decide_eq_false_iff_not, decide_eq_false_iff_not]
      omega
  have hadd := setLocal_holders (x := x.restrict t fun i => i.val < k) (i := ⟨k, hk⟩) hlive
    (x.fdTable t ⟨k, hk⟩) node d
  rw [hnone, Option.bind_none, if_neg (Option.some_ne_none d).symm, Nat.add_zero] at hadd
  rw [← hadd]
  exact holders_congr rfl htable

/-- All of them are in. -/
theorem restrict_all_holders (x : FileState τ) (t : τ) :
    holders (x.restrict t fun i => i.val < maxOpenFiles) node d = holders x node d := by
  refine holders_congr rfl (funext fun t' => funext fun i => ?_)
  rw [restrict_fdTable, if_neg]
  exact fun h => absurd (decide_eq_true i.isLt) (ne_true_of_eq_false h.2)

/-- Some of them hold a device at most as often. -/
theorem restrict_holders_le (x : FileState τ) (t : τ) (keep : Fin maxOpenFiles → Bool)
    (node : Fin maxFdNr → Option Int32) (d : Int32) :
    holders (x.restrict t keep) node d ≤ holders x node d := by
  refine Finset.sum_le_sum fun p _ => ?_
  by_cases hout : p.1 = t ∧ keep p.2 = false
  · rw [if_neg]
    · exact Nat.zero_le _
    · rintro ⟨-, hfd⟩
      rw [restrict_fdTable, if_pos hout] at hfd
      cases hfd
  · refine Nat.le_of_eq (if_congr ?_ rfl rfl)
    rw [Holds, Holds, restrict_fdTable, if_neg hout]
    exact Iff.rfl

end

/-! ## The calls keep the balance -/

section

variable [Fintype τ] {s' : DeviceFiles τ}

/-- A call for one device. -/
theorem DevicesBalanced.set (h : DevicesBalanced s) {call : DeviceCall} (hright : call.Right)
    (hrefs : s'.references = Function.update s.references d (some call.after))
    (hcalls : s'.calls = call :: s.calls)
    (hat : call.after.toInt = s'.direct d + holders s'.files s'.node d)
    (hother : ∀ d', d' ≠ d → s'.direct d' + holders s'.files s'.node d' =
      s.direct d' + holders s.files s.node d') : DevicesBalanced s' := by
  refine ⟨fun d' n hn => ?_, fun c hc => ?_⟩
  · rw [hrefs] at hn
    by_cases hd : d' = d
    · rw [hd, Function.update_self] at hn
      rw [hd, ← Option.some.inj hn]
      exact hat
    · rw [Function.update_of_ne hd] at hn
      have hcount := h.references d' n hn
      have hsame := hother d' hd
      omega
  · rw [hcalls] at hc
    obtain rfl | hold := List.mem_cons.mp hc
    · exact hright
    · exact h.calls c hold

/-- Nothing is counted. -/
theorem DevicesBalanced.same (h : DevicesBalanced s) (hrefs : s'.references = s.references)
    (hcalls : s'.calls = s.calls)
    (hcounts : ∀ d n, s.references d = some n → s'.direct d + holders s'.files s'.node d =
      s.direct d + holders s.files s.node d) : DevicesBalanced s' := by
  refine ⟨fun d n hn => ?_, fun c hc => ?_⟩
  · rw [hrefs] at hn
    have hcount := h.references d n hn
    have hsame := hcounts d n hn
    omega
  · rw [hcalls] at hc
    exact h.calls c hc

/-- A descriptor that holds a device comes with its `DeviceOpen`. -/
theorem DevicesBalanced.opened (s' : DeviceFiles τ) (h : DevicesBalanced s)
    (hrefs : s'.references = s.references)
    (hcalls : s'.calls = s.calls) (hdirect : s'.direct = s.direct) {works : Bool}
    (hok : OpenOk s d works) (hholders : ∀ d', holders s'.files s'.node d' =
      holders s.files s.node d' + if some d = some d' then 1 else 0) :
    DevicesBalanced (s'.deviceOpen d works).1 := by
  have hother : ∀ d', d' ≠ d → s'.direct d' + holders s'.files s'.node d' =
      s.direct d' + holders s.files s.node d' := by
    intro d' hd
    rw [hdirect, hholders, if_neg fun heq => hd (Option.some.inj heq).symm, Nat.add_zero]
  cases hn : s.references d with
  | none =>
      have hopen : s'.deviceOpen d works = (s', false) := by
        rw [DeviceFiles.deviceOpen, hrefs, hn]
      rw [hopen]
      refine h.same hrefs hcalls fun d' n hn' => hother d' ?_
      rintro rfl
      rw [hn] at hn'
      cases hn'
  | some n =>
      have hcount := h.references d n hn
      have hok' : OpenOk s' d works := by
        rw [OpenOk, hrefs]
        exact hok
      obtain ⟨call, hafter, hright, hopen⟩ := device_open_spec (hrefs ▸ hn) (by omega) hok'
      rw [hopen]
      refine h.set hright ?_ ?_ ?_ hother
      · show Function.update s'.references d _ = _
        rw [hrefs]
      · show call :: s'.calls = _
        rw [hcalls]
      · show call.after.toInt = (s'.direct d : Nat) + (holders s'.files s'.node d : Nat)
        have hone := hholders d
        rw [if_pos rfl] at hone
        rw [hafter, hcount, hdirect, hone]
        omega

/-- It goes with its `DeviceClose`. -/
theorem DevicesBalanced.closed (h : DevicesBalanced s) {x : FileState τ}
    (hholders : ∀ d', holders x s.node d' + (if some d = some d' then 1 else 0) =
      holders s.files s.node d') : DevicesBalanced { (s.deviceClose d).1 with files := x } := by
  have hother : ∀ d', d' ≠ d → s.direct d' + holders x s.node d' =
      s.direct d' + holders s.files s.node d' := by
    intro d' hd
    rw [← hholders, if_neg fun heq => hd (Option.some.inj heq).symm, Nat.add_zero]
  cases hn : s.references d with
  | none =>
      have hclose : s.deviceClose d = (s, false) := by rw [DeviceFiles.deviceClose, hn]
      rw [hclose]
      refine h.same rfl rfl fun d' n hn' => hother d' ?_
      rintro rfl
      rw [hn] at hn'
      cases hn'
  | some n =>
      have hcount := h.references d n hn
      have hone := hholders d
      rw [if_pos rfl] at hone
      obtain ⟨call, hafter, hright, hclose⟩ := device_close_spec hn (by omega)
      rw [hclose]
      refine h.set hright rfl rfl ?_ hother
      show call.after.toInt = (s.direct d : Nat) + (holders x s.node d : Nat)
      omega

theorem DevicesBalanced.open_direct (h : DevicesBalanced s) {works : Bool}
    (hok : OpenOk s d works) : DevicesBalanced (s.openDirect d works) := by
  cases hn : s.references d with
  | none =>
      have hopen : s.deviceOpen d works = (s, false) := by rw [DeviceFiles.deviceOpen, hn]
      rw [DeviceFiles.openDirect, hopen]
      exact h
  | some n =>
      have hcount := h.references d n hn
      obtain ⟨call, hafter, hright, hopen⟩ := device_open_spec hn (by omega) hok
      rw [DeviceFiles.openDirect, hopen]
      refine h.set hright rfl rfl ?_ fun d' hd => ?_
      · show call.after.toInt = (Function.update s.direct d (s.direct d + 1) d : Nat) + _
        rw [hafter, hcount, Function.update_self]
        show _ = ((s.direct d + 1 : Nat) : Int) + (holders s.files s.node d : Nat)
        omega
      · show Function.update s.direct d (s.direct d + 1) d' + _ = _
        rw [Function.update_of_ne hd]
        rfl

theorem DevicesBalanced.close_direct (h : DevicesBalanced s)
    (hguard : s.direct d = 0 → ∀ n, s.references d = some n → n = 0) :
    DevicesBalanced (s.closeDirect d) := by
  cases hn : s.references d with
  | none =>
      have hclose : s.deviceClose d = (s, false) := by rw [DeviceFiles.deviceClose, hn]
      rw [DeviceFiles.closeDirect, hclose]
      exact h
  | some n =>
      have hcount := h.references d n hn
      by_cases hzero : n = 0
      · rw [hzero] at hn hcount
        obtain ⟨call, hafter, hright, hclose⟩ := device_close_zero hn
        rw [DeviceFiles.closeDirect, hclose]
        refine h.set hright rfl rfl ?_ fun d' hd => rfl
        rw [hafter]
        exact hcount
      · have hdirect : s.direct d ≠ 0 := fun h0 => hzero (hguard h0 n hn)
        obtain ⟨call, hafter, hright, hclose⟩ := device_close_spec hn (by omega)
        rw [DeviceFiles.closeDirect, hclose]
        refine h.set hright rfl rfl ?_ fun d' hd => ?_
        · show call.after.toInt = (Function.update s.direct d (s.direct d - 1) d : Nat) + _
          rw [hafter, hcount, Function.update_self]
          show _ = ((s.direct d - 1 : Nat) : Int) + (holders s.files s.node d : Nat)
          omega
        · show Function.update s.direct d (s.direct d - 1) d' + _ = _
          rw [Function.update_of_ne hd]
          rfl

variable [DecidableEq τ] {t : τ}

/-- What an open does to the tables, where they have room. -/
theorem open_entry_spec (h : Balanced s.files) (hlive : s.files.live t = true) {flags : UInt32}
    (hflags : flags ≠ fdFree) (hroom : s.files.HasSlot t ∨ s.files.TableFull)
    (device : Option Int32) :
    s.files.TableFull ∧ s.openEntry t flags device = (s, none) ∨
      ∃ i fd file, ¬s.files.InUse fd ∧ s.files.fdTable t i = none ∧
        s.openEntry t flags device = ({ s with
          files := (s.files.setFile fd file).setLocal t i (some fd)
          node := Function.update s.node fd device }, some i) ∧
        Balanced ((s.files.setFile fd file).setLocal t i (some fd)) := by
  rcases open_file_ends s.files t flags with
    ⟨hfull, halloc, hopen⟩ | ⟨fd, used, hfd, halloc, ⟨hno, -⟩ | ⟨i, hnone, hopen⟩⟩
  · refine .inl ⟨hfull, ?_⟩
    rw [DeviceFiles.openEntry, halloc, hopen]
  · exact absurd (hroom.resolve_right fun hfull => hfd (hfull fd)) hno
  · refine .inr ⟨i, fd, _, hfd, hnone, ?_, h.opened hlive hflags hfd hnone⟩
    rw [DeviceFiles.openEntry, halloc, hopen]

/-- The balance of the tables with that of the devices. -/
structure DevicesInv (s : DeviceFiles τ) : Prop where
  files : Balanced s.files
  devices : DevicesBalanced s

/-- The number of holders when an entry that nobody names is opened. -/
theorem opened_holders (h : Balanced s.files) (hlive : s.files.live t = true)
    {fd : Fin maxFdNr} (hfd : ¬s.files.InUse fd) {i : Fin maxOpenFiles}
    (hnone : s.files.fdTable t i = none) (file : FileDescriptor) (device : Option Int32) :
    holders ((s.files.setFile fd file).setLocal t i (some fd))
      (Function.update s.node fd device) d =
        holders s.files s.node d + if device = some d then 1 else 0 := by
  have hadd := setLocal_holders (x := s.files.setFile fd file) (i := i) hlive (some fd)
    (Function.update s.node fd device) d
  have hfree : ∀ t i, (s.files.setFile fd file).live t = true →
      (s.files.setFile fd file).fdTable t i ≠ some fd :=
    fun t' i' hlive' hname => hfd (h.named t' i' fd hlive' hname)
  have hold : (s.files.setFile fd file).fdTable t i = none := hnone
  rw [hold, Option.bind_none, if_neg (Option.some_ne_none d).symm, Nat.add_zero,
    holders_node hfree, Option.bind_some, Function.update_self] at hadd
  rw [hadd]
  exact congrArg (· + _) (holders_congr rfl rfl)

/-- `BOFS_Open`. -/
theorem DevicesInv.open_file (h : DevicesInv s) (hlive : s.files.live t = true) {flags : UInt32}
    (hflags : flags ≠ fdFree) {device : Option Int32} {loaded works : Bool} {stray : Int32}
    (hguard : deviceGuard s (.open t flags device loaded stray works)) :
    DevicesInv (s.openFile t flags device loaded stray works) := by
  cases device with
  | none =>
      cases loaded with
      | false => exact h
      | true =>
          rw [DeviceFiles.openFile, if_pos rfl]
          rcases open_entry_spec h.files hlive hflags (hguard rfl) none with
            ⟨-, heq⟩ | ⟨i, fd, file, hfd, hnone, heq, hbalanced⟩
          · rw [heq]
            exact h
          · rw [heq]
            refine ⟨hbalanced, h.devices.same rfl rfl fun d n _ => ?_⟩
            rw [opened_holders h.files hlive hfd hnone, if_neg (Option.some_ne_none d).symm]
            rfl
  | some d =>
      obtain ⟨rfl, hslot, hfull, hok⟩ := hguard
      obtain ⟨i, fd, file, hfd, hnone, heq, hbalanced⟩ :=
        (open_entry_spec h.files hlive hflags (.inl hslot) (some d)).resolve_left
          fun hno => hfull hno.1
      rw [DeviceFiles.openFile, if_pos rfl, heq]
      dsimp only
      rw [Option.isSome_some, if_pos rfl]
      refine ⟨?_, h.devices.opened { s with
        files := (s.files.setFile fd file).setLocal t i (some fd)
        node := Function.update s.node fd (some d) } rfl rfl rfl hok fun d' =>
          opened_holders h.files hlive hfd hnone file (some d)⟩
      rw [(device_open_frame _ d works).1]
      exact hbalanced

/-- `BOFS_Close`. -/
theorem DevicesInv.close (h : DevicesInv s) (hlive : s.files.live t = true)
    (i : Fin maxOpenFiles) : DevicesInv (s.close t i) := by
  cases hfd : s.files.fdTable t i with
  | none =>
      rw [DeviceFiles.close, hfd]
      exact h
  | some fd =>
      obtain ⟨hbalanced, hlives, htable⟩ := h.files.close hlive i
      have hholders : ∀ d, holders (s.files.close t i) s.node d +
          (if s.node fd = some d then 1 else 0) = holders s.files s.node d := by
        intro d
        have hdrop := setLocal_holders (i := i) hlive none s.node d
        rw [hfd, Option.bind_some, Option.bind_none, if_neg (Option.some_ne_none d).symm,
          Nat.add_zero] at hdrop
        rw [← hdrop]
        exact congrArg (· + _) (holders_congr hlives htable)
      rw [DeviceFiles.close, hfd]
      dsimp only
      cases hnode : s.node fd with
      | none =>
          refine ⟨hbalanced, h.devices.same rfl rfl fun d n _ => ?_⟩
          have hsame := hholders d
          rw [hnode, if_neg (Option.some_ne_none d).symm] at hsame
          exact congrArg (s.direct d + ·) hsame
      | some d =>
          dsimp only
          rw [device_close_files]
          refine ⟨hbalanced, h.devices.closed fun d' => ?_⟩
          rw [← hnode]
          exact hholders d'

/-- The loop of `SysFork` after some rounds: the device counts have the descriptors of the child
that are done, and the tables are those of the loop over the references. -/
structure UpdateInv (s x : DeviceFiles τ) (child : τ) (k : Nat) : Prop where
  files : x.files = loopFds (fun s i => s.updateCount child i) s.files k
  live : x.files.live = s.files.live
  table : x.files.fdTable = s.files.fdTable
  node : x.node = s.node
  direct : x.direct = s.direct
  devices : DevicesBalanced { x with files := s.files.restrict child fun i => i.val < k }

omit [Fintype τ] [DecidableEq τ] in
/-- A `DeviceOpen` does not look at the tables. -/
theorem device_open_with (s : DeviceFiles τ) (d : Int32) (works : Bool) (x : FileState τ) :
    { (s.deviceOpen d works).1 with files := x } =
      ({ s with files := x }.deviceOpen d works).1 := by
  rw [DeviceFiles.deviceOpen, DeviceFiles.deviceOpen]
  cases s.references d with
  | none => rfl
  | some n =>
      dsimp only
      by_cases hpos : 0 ≤ n
      · rw [if_pos hpos, if_pos hpos]
        rfl
      · rw [if_neg hpos, if_neg hpos]
        rfl

omit [Fintype τ] [DecidableEq τ] in
theorem update_count_frame (x : FileState τ) (child : τ) (i : Fin maxOpenFiles) :
    (x.updateCount child i).live = x.live ∧ (x.updateCount child i).fdTable = x.fdTable := by
  rw [FileState.updateCount]
  split
  · exact ⟨rfl, rfl⟩
  · exact ⟨rfl, rfl⟩

/-- A round of the loop. -/
theorem UpdateInv.round {x : DeviceFiles τ} {child : τ} {k : Nat} (h : UpdateInv s x child k)
    (hk : k < maxOpenFiles) (hchild : s.files.live child = true)
    (hheld : ∀ d, (s.files.fdTable child ⟨k, hk⟩).bind s.node = some d →
      s.direct d + holders s.files s.node d < 2 ^ 31 ∧
        holders (s.files.restrict child fun i => i.val < k) s.node d ≠ 0)
    (works : Fin maxOpenFiles → Bool) :
    UpdateInv s (x.updateCount works child ⟨k, hk⟩) child (k + 1) := by
  have hfiles : x.files.updateCount child ⟨k, hk⟩ =
      loopFds (fun s i => s.updateCount child i) s.files (k + 1) := by
    rw [loopFds, dif_pos hk, ← h.files]
  obtain ⟨hlives, htables⟩ := update_count_frame x.files child ⟨k, hk⟩
  have hholders := restrict_holders hchild hk s.node
  have hread : (x.files.fdTable child ⟨k, hk⟩).bind x.node =
      (s.files.fdTable child ⟨k, hk⟩).bind s.node := by
    rw [h.table, h.node]
  rw [DeviceFiles.updateCount, hread]
  cases hfd : (s.files.fdTable child ⟨k, hk⟩).bind s.node with
  | none =>
      dsimp only
      refine ⟨hfiles, hlives.trans h.live, htables.trans h.table, h.node, h.direct, ?_⟩
      refine h.devices.same rfl rfl fun d n _ => ?_
      have hsame := hholders d
      rw [hfd, if_neg (Option.some_ne_none d).symm, Nat.add_zero] at hsame
      refine congrArg (x.direct d + ·) ?_
      show holders _ x.node d = holders _ x.node d
      rw [h.node]
      exact hsame
  | some d =>
      dsimp only
      obtain ⟨hfiles', hnode, hdirect⟩ := device_open_frame
        { x with files := x.files.updateCount child ⟨k, hk⟩ } d (works ⟨k, hk⟩)
      have hok : OpenOk { x with files := s.files.restrict child fun i => i.val < k } d
          (works ⟨k, hk⟩) := by
        intro n hn
        have hcount := h.devices.references d n hn
        dsimp only at hcount
        rw [h.node, h.direct] at hcount
        obtain ⟨hmost, hpos⟩ := hheld d hfd
        have hless := restrict_holders_le s.files child (fun i => i.val < k + 1) s.node d
        rw [hholders d, hfd, if_pos rfl] at hless
        refine ⟨?_, by omega⟩
        rintro rfl
        have hzero : (0 : Int32).toInt = 0 := rfl
        omega
      refine ⟨hfiles'.trans hfiles, (congrArg FileState.live hfiles').trans (hlives.trans h.live),
        (congrArg FileState.fdTable hfiles').trans (htables.trans h.table), hnode.trans h.node,
        hdirect.trans h.direct, ?_⟩
      rw [device_open_with]
      refine h.devices.opened { x with files := s.files.restrict child fun i => i.val < k + 1 }
        rfl rfl rfl hok fun d' => ?_
      show holders _ x.node d' = holders _ x.node d' + _
      rw [h.node]
      exact hfd ▸ hholders d'

/-- The copy of the table does not count before the first round. -/
theorem copied_holders {x : FileState τ} {parent child : τ}
    (hnew : x.live child = false) (node : Fin maxFdNr → Option Int32) :
    holders ((x.copyTask parent child).restrict child fun i => i.val < 0) node d =
      holders x node d := by
  refine congrArg tally (funext fun p => if_congr ?_ rfl rfl)
  rw [Holds, Holds, restrict_fdTable]
  by_cases hp : p.1 = child
  · rw [if_pos ⟨hp, rfl⟩, hp, hnew]
    exact iff_of_false (fun h => Option.some_ne_none d h.2.symm) fun h => Bool.false_ne_true h.1
  · rw [if_neg fun h => hp h.1]
    show Function.update x.live child true p.1 = true ∧
      (Function.update x.fdTable child (x.fdTable parent) p.1 p.2).bind node = some d ↔ _
    rw [Function.update_of_ne hp, Function.update_of_ne hp]

/-- `SysFork` opens the devices of the child. -/
theorem DevicesInv.fork (h : DevicesInv s) {parent child : τ} (hlive : s.files.live parent = true)
    (hnew : s.files.live child = false)
    (hroom : ∀ i d, (s.files.fdTable parent i).bind s.node = some d →
      s.direct d + holders (s.files.copyTask parent child) s.node d < 2 ^ 31)
    (works : Fin maxOpenFiles → Bool) : DevicesInv (s.fork parent child works) := by
  have hne : parent ≠ child := by
    rintro rfl
    rw [hnew] at hlive
    cases hlive
  set copy : DeviceFiles τ := { s with files := s.files.copyTask parent child } with hcopy
  have hchild : copy.files.live child = true := Function.update_self ..
  have hparent : copy.files.live parent = true := (Function.update_of_ne hne ..).trans hlive
  have hsame : copy.files.fdTable child = copy.files.fdTable parent := by
    show Function.update s.files.fdTable child (s.files.fdTable parent) child =
      Function.update s.files.fdTable child (s.files.fdTable parent) parent
    rw [Function.update_self, Function.update_of_ne hne]
  have hrounds : ∀ k ≤ maxOpenFiles,
      UpdateInv copy (DeviceFiles.updateRounds works child copy k) child k := by
    intro k
    induction k with
    | zero =>
        intro _
        refine ⟨rfl, rfl, rfl, rfl, rfl, h.devices.same rfl rfl fun d n _ => ?_⟩
        exact congrArg (s.direct d + ·) (copied_holders hnew s.node)
    | succ k ih =>
        intro hk
        rw [DeviceFiles.updateRounds, dif_pos (Nat.lt_of_succ_le hk)]
        refine (ih (Nat.le_of_succ_le hk)).round (Nat.lt_of_succ_le hk) hchild ?_ works
        intro d hfd
        have hcopied : copy.files.fdTable child = s.files.fdTable parent := Function.update_self ..
        refine ⟨hroom ⟨k, Nat.lt_of_succ_le hk⟩ d (hcopied ▸ hfd), fun hzero => ?_⟩
        -- the parent holds the device too
        have hcounts := tally_eq_zero.mp hzero (parent, ⟨k, Nat.lt_of_succ_le hk⟩)
        rw [if_pos] at hcounts
        · cases hcounts
        · refine ⟨hparent, ?_⟩
          rw [restrict_fdTable, if_neg fun heq => hne heq.1, ← hsame]
          exact hfd
  have hlast := hrounds maxOpenFiles le_rfl
  refine ⟨?_, ?_⟩
  · rw [DeviceFiles.fork, hlast.files]
    exact h.files.fork hlive hnew
  · refine hlast.devices.same rfl rfl fun d n _ => congrArg (_ + ·) ?_
    show holders (DeviceFiles.updateRounds works child copy maxOpenFiles).files _ d =
      holders (copy.files.restrict child fun i => i.val < maxOpenFiles) _ d
    rw [restrict_all_holders]
    exact holders_congr hlast.live hlast.table

/-- A call that meets the guard keeps the balance. -/
theorem DevicesInv.step (h : DevicesInv s) {op : DeviceOp τ} (hguard : deviceGuard s op)
    (hstep : deviceStep s op = some s') : DevicesInv s' := by
  rw [deviceStep.eq_def] at hstep
  cases op with
  | deviceOpen d works =>
      cases Option.some.inj hstep
      refine ⟨?_, h.devices.open_direct hguard⟩
      exact (device_open_frame s d works).1.symm ▸ h.files
  | deviceClose d =>
      cases Option.some.inj hstep
      refine ⟨?_, h.devices.close_direct hguard⟩
      exact (device_close_files s d).symm ▸ h.files
  | «open» t flags device loaded stray works =>
      simp only [Option.ite_none_right_eq_some, Option.some.injEq] at hstep
      obtain ⟨⟨hlive, -, haccess⟩, rfl⟩ := hstep
      refine h.open_file hlive ?_ hguard
      rintro rfl
      exact haccess (by decide)
  | close t fd =>
      simp only [Option.ite_none_right_eq_some] at hstep
      obtain ⟨hlive, hstep⟩ := hstep
      split at hstep
      · split at hstep
        · cases Option.some.inj hstep
          exact h.close hlive _
        · cases Option.some.inj hstep
          exact h
      · cases Option.some.inj hstep
        exact h
  | fork parent child works =>
      simp only [Option.ite_none_right_eq_some, Option.some.injEq] at hstep
      obtain ⟨⟨hlive, hnew⟩, rfl⟩ := hstep
      exact h.fork hlive hnew hguard works

omit [DecidableEq τ] in
/-- No device is open at the start. -/
theorem devices_init (live : τ → Bool) (registered : Int32 → Bool) :
    DevicesInv (DeviceFiles.init live registered) := by
  refine ⟨balanced_init live, fun d n hn => ?_, fun call hcall => absurd hcall List.not_mem_nil⟩
  have hnone : holders (FileState.init live) (fun _ => none) d = 0 := by
    refine tally_eq_zero.mpr fun p => ?_
    rw [if_neg]
    rintro ⟨-, hfd⟩
    cases hfd
  have hzero : n = 0 := by
    have hregistered : (if registered d then some (0 : Int32) else none) = some n := hn
    split at hregistered
    · exact (Option.some.inj hregistered).symm
    · cases hregistered
  rw [hzero]
  show (0 : Int) = (0 : Nat) + (holders (FileState.init live) (fun _ => none) d : Nat)
  rw [hnone]
  rfl

/-- In every run of calls that meet the guard, the counts of the devices are the numbers of direct
opens and of descriptors, and the drivers are called when they should be. -/
theorem devices_balanced {live : τ → Bool} {registered : Int32 → Bool} {ops : List (DeviceOp τ)}
    (hrun : Run (stepOf deviceStep) deviceGuard (.init live registered) ops s) :
    DevicesBalanced s :=
  (hrun.invariant (fun _ _ _ h hguard hstep => h.step hguard hstep)
    (devices_init live registered)).devices

end

instance (s : DeviceFiles τ) (d : Int32) (works : Bool) : Decidable (OpenOk s d works) :=
  Option.decidableForallMem (s.references d)

instance [Fintype τ] [DecidableEq τ] (s : DeviceFiles τ) :
    (op : DeviceOp τ) → Decidable (deviceGuard s op)
  | .deviceOpen d works => inferInstanceAs (Decidable (OpenOk s d works))
  | .deviceClose d =>
      have : Decidable (∀ n ∈ s.references d, n = 0) := Option.decidableForallMem _
      inferInstanceAs (Decidable (s.direct d = 0 → ∀ n ∈ s.references d, n = 0))
  | .open t _ none loaded _ _ =>
      inferInstanceAs (Decidable (loaded = true → s.files.HasSlot t ∨ s.files.TableFull))
  | .open t _ (some d) loaded _ works =>
      inferInstanceAs (Decidable (loaded = true ∧ s.files.HasSlot t ∧ ¬s.files.TableFull ∧
        OpenOk s d works))
  | .close _ _ => inferInstanceAs (Decidable True)
  | .fork parent child _ =>
      have (i : Fin maxOpenFiles) : Decidable (∀ d ∈ (s.files.fdTable parent i).bind s.node,
          s.direct d + holders (s.files.copyTask parent child) s.node d < 2 ^ 31) :=
        Option.decidableForallMem _
      inferInstanceAs (Decidable (∀ i, ∀ d ∈ (s.files.fdTable parent i).bind s.node,
        s.direct d + holders (s.files.copyTask parent child) s.node d < 2 ^ 31))

/-- A driver opens a device, a task opens its file and forks, the driver closes the device, and the
child closes the file. -/
def deviceShared : List (DeviceOp (Fin 2)) :=
  [.deviceOpen 5 true, .open 0 rdOnly (some 5) true 0 true, .fork 0 1 fun _ => true,
    .deviceClose 5, .close 1 0]

/-- The descriptor of the parent is what is left. -/
theorem device_shared_balanced : ∃ s : DeviceFiles (Fin 2),
    Run (stepOf deviceStep) deviceGuard (.init (fun t => t = 0) fun d => d = 5) deviceShared s ∧
      (s.references 5, holders s.files s.node 5, s.calls.length) = (some 1, 1, 5) ∧
      DevicesBalanced s := by
  obtain ⟨s, t, hstart, hrun, hview⟩ := exists_run_checked deviceStep deviceGuard
    (some (.init (fun t : Fin 2 => t = 0) fun d => d = 5)) deviceShared
    (fun s => (s.references 5, holders s.files s.node 5, s.calls.length)) (v := (some 1, 1, 5))
    (by decide +kernel)
  cases Option.some.inj hstart
  exact ⟨t, hrun, hview, devices_balanced hrun⟩

/-- The `open` of a driver fails, and its device is in use for ever. -/
theorem failed_open_counted : ∃ s : DeviceFiles (Fin 1),
    Run (stepOf deviceStep) anyLabel (.init (fun _ => true) fun d => d = 5)
      [.deviceOpen 5 false] s ∧
      ¬DevicesBalanced s := by
  obtain ⟨s, t, hstart, hrun, hview⟩ := exists_run_all deviceStep
    (some (.init (fun _ : Fin 1 => true) fun d => d = 5)) [.deviceOpen 5 false]
    (fun s => (s.references 5, s.direct 5, holders s.files s.node 5)) (v := (some 1, 0, 0))
    (by decide +kernel)
  cases Option.some.inj hstart
  obtain ⟨hreferences, hcounts⟩ := Prod.mk.inj hview
  obtain ⟨hdirect, hholders⟩ := Prod.mk.inj hcounts
  refine ⟨t, hrun, fun hbalanced => ?_⟩
  have hcount := hbalanced.references 5 1 hreferences
  rw [hdirect, hholders] at hcount
  exact absurd hcount (by decide)

end XBook.Files
