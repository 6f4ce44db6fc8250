import Mathlib.Data.List.Basic

/-!
# The ARP cache

`ArpAddCache` and `ArpLookupCache` of `net/arp.c` over the table of `InitARP`. An address is added
in the first free slot, whatever the table holds for it, and looked up in the first slot that has
it, so a lookup gives what was added first. `table_eq` says what the table holds behind any calls,
and `arp_cache_iff` for which of them a lookup is right.
-/

namespace XBook.Arp

/-- `MAX_ARP_CACHE_NR`. -/
abbrev maxArpCacheNr : Nat := 128

/-- The bytes of a MAC address, of which there are `ETH_ADDR_LEN`. -/
abbrev EthernetAddress := Vector UInt8 6

/-- `ArpCache_t`, where the address 0 marks a free slot. -/
structure ArpCache where
  ipAddress : UInt32
  macAddress : EthernetAddress
  deriving DecidableEq

/-- `arpCacheTable`. -/
abbrev CacheTable := List ArpCache

/-- What `InitARP` and a slot that was never used hold. -/
def emptySlot : ArpCache := ⟨0, Vector.replicate 6 0⟩

/-- The table of `InitARP`. -/
def initArp : CacheTable := List.replicate maxArpCacheNr emptySlot

/-- `ArpCacheInit`. -/
def arpCacheInit (ip : UInt32) (mac : EthernetAddress) : ArpCache := ⟨ip, mac⟩

/-- `ArpAddCache`, with its result. -/
def arpAddCache (table : CacheTable) (ip : UInt32) (mac : EthernetAddress) : CacheTable × Int :=
  match table.findIdx? fun c => c.ipAddress = 0 with
  | some i => (table.set i (arpCacheInit ip mac), 1)
  | none => (table, 0)

/-- `ArpLookupCache`, with what it leaves in `mac` and its result. -/
def arpLookupCache (table : CacheTable) (ip : UInt32) (mac : EthernetAddress) :
    EthernetAddress × Int :=
  match table.find? fun c => c.ipAddress = ip with
  | some cache => (cache.macAddress, 1)
  | none => (mac, 0)

/-- The calls on the cache. -/
inductive ArpCall where
  | add (ip : UInt32) (mac : EthernetAddress)
  | lookup (ip : UInt32) (mac : EthernetAddress)

/-- The table behind some calls, of which the last one comes first. -/
def tableAfter : List ArpCall → CacheTable
  | [] => initArp
  | .add ip mac :: past => (arpAddCache (tableAfter past) ip mac).1
  | .lookup _ _ :: past => tableAfter past

/-! ## What a lookup should give -/

/-- The calls that have used up a slot: those for an address other than that of a free slot. -/
def used : List ArpCall → Nat
  | [] => 0
  | .add ip _ :: past => if ip = 0 then used past else used past + 1
  | .lookup _ _ :: past => used past

/-- The MACs that have been added for an address and not been refused, the last one first. -/
def recorded (ip : UInt32) : List ArpCall → List EthernetAddress
  | [] => []
  | .add ip' mac :: past =>
      if ip' = ip ∧ used past < maxArpCacheNr then mac :: recorded ip past else recorded ip past
  | .lookup _ _ :: past => recorded ip past

/-- The MAC of the last call for an address, unless the call was refused. -/
def lastAdded (ip : UInt32) : List ArpCall → Option EthernetAddress
  | [] => none
  | .add ip' mac :: past =>
      if ip' = ip then if used past < maxArpCacheNr then some mac else none else lastAdded ip past
  | .lookup _ _ :: past => lastAdded ip past

/-- There is no slot for the address: each holds another one. -/
def Evicted (table : CacheTable) (ip : UInt32) : Prop :=
  ∀ c ∈ table, c.ipAddress ≠ ip ∧ c.ipAddress ≠ 0

/-- A lookup behind some calls finds only what was recorded for the address, and the MAC of the last
call for it unless that was refused or its slot was needed for another address. -/
def LookupRight (past : List ArpCall) (ip : UInt32) (mac : EthernetAddress) : Prop :=
  ((arpLookupCache (tableAfter past) ip mac).2 = 1 →
    (arpLookupCache (tableAfter past) ip mac).1 ∈ recorded ip past) ∧
  ∀ m, lastAdded ip past = some m → ¬Evicted (tableAfter past) ip →
    arpLookupCache (tableAfter past) ip mac = (m, 1)

/-- What the first free slot holds: the MAC of an address 0, if one was added since the slot became
the first. -/
def freeMac : List ArpCall → EthernetAddress
  | [] => emptySlot.macAddress
  | .add ip mac :: past =>
      if maxArpCacheNr ≤ used past then freeMac past
      else if ip = 0 then mac
      else emptySlot.macAddress
  | .lookup _ _ :: past => freeMac past

/-- The last call for an address, unless it was refused, brought the MAC of the first one. The
address 0 is that of the first free slot, if there is one. -/
def Unchanged (past : List ArpCall) (ip : UInt32) : Prop :=
  if ip = 0 then maxArpCacheNr ≤ used past ∨ lastAdded 0 past = some (freeMac past)
  else ∀ m, lastAdded ip past = some m → (recorded ip past).getLast? = some m

/-! ## What the table holds -/

/-- The slots in use, in their order. -/
def kept : List ArpCall → CacheTable
  | [] => []
  | .add ip mac :: past =>
      if ip ≠ 0 ∧ used past < maxArpCacheNr then kept past ++ [arpCacheInit ip mac] else kept past
  | .lookup _ _ :: past => kept past

/-- The slots of a table, of which some are in use. -/
def layout (slots : CacheTable) (mac : EthernetAddress) : CacheTable :=
  slots ++ (⟨0, mac⟩ :: List.replicate (maxArpCacheNr - 1) emptySlot).take
    (maxArpCacheNr - slots.length)

theorem length_kept (past : List ArpCall) : (kept past).length = min maxArpCacheNr (used past) := by
  induction past with
  | nil => rfl
  | cons call past ih =>
      cases call with
      | add ip mac =>
          rw [kept, used]
          by_cases hzero : ip = 0
          · rw [if_neg fun h => h.1 hzero, if_pos hzero, ih]
          · rw [if_neg hzero]
            by_cases hroom : used past < maxArpCacheNr
            · rw [if_pos ⟨hzero, hroom⟩, List.length_append, ih, List.length_singleton]
              omega
            · rw [if_neg fun h => hroom h.2, ih]
              omega
      | lookup ip mac => exact ih

/-- No slot in use has the address of a free one. -/
theorem kept_ne_zero {past : List ArpCall} {c : ArpCache} (h : c ∈ kept past) :
    c.ipAddress ≠ 0 := by
  induction past with
  | nil => cases h
  | cons call past ih =>
      cases call with
      | add ip mac =>
          rw [kept] at h
          split at h
          · next hkept =>
              rcases List.mem_append.mp h with hold | hnew
              · exact ih hold
              · rw [List.mem_singleton.mp hnew]
                exact hkept.1
          · exact ih h
      | lookup ip mac => exact ih h

/-- While there is room the first free slot comes behind those in use. -/
theorem layout_room {slots : CacheTable} (mac : EthernetAddress)
    (h : slots.length < maxArpCacheNr) : layout slots mac =
      slots ++ ⟨0, mac⟩ :: List.replicate (maxArpCacheNr - 1 - slots.length) emptySlot := by
  obtain ⟨room, hroom⟩ := Nat.exists_eq_add_of_lt h
  have hleft : maxArpCacheNr - slots.length = room + 1 := by omega
  have hrest : maxArpCacheNr - 1 - slots.length = room := by omega
  rw [layout, hleft, hrest, List.take_succ_cons, List.take_replicate, Nat.min_eq_left (by omega)]

theorem layout_full {slots : CacheTable} (mac : EthernetAddress)
    (h : maxArpCacheNr ≤ slots.length) : layout slots mac = slots := by
  rw [layout, Nat.sub_eq_zero_of_le h, List.take_zero, List.append_nil]

/-- With a first free slot that was never used, all the free ones are alike. -/
theorem layout_empty (slots : CacheTable) : layout slots emptySlot.macAddress =
    slots ++ List.replicate (maxArpCacheNr - slots.length) emptySlot := by
  rw [layout]
  show slots ++ (List.replicate maxArpCacheNr emptySlot).take (maxArpCacheNr - slots.length) = _
  rw [List.take_replicate, Nat.min_eq_left (Nat.sub_le _ _)]

/-- The slots in use are in front, then come the free ones. -/
theorem table_eq (past : List ArpCall) : tableAfter past = layout (kept past) (freeMac past) := by
  induction past with
  | nil => rfl
  | cons call past ih =>
      cases call with
      | lookup ip mac => exact ih
      | add ip mac =>
          have hlength := length_kept past
          rw [tableAfter, arpAddCache, ih, kept, freeMac]
          by_cases hroom : used past < maxArpCacheNr
          · have hlt : (kept past).length < maxArpCacheNr := by omega
            have hfree : ∀ c ∈ kept past, ¬c.ipAddress = 0 := fun c hc => kept_ne_zero hc
            have hfind : (layout (kept past) (freeMac past)).findIdx? (fun c => c.ipAddress = 0) =
                some (kept past).length := by
              rw [layout_room _ hlt, List.findIdx?_append, List.findIdx?_eq_none_iff.mpr (by simpa),
                List.findIdx?_cons]
              simp
            rw [hfind, if_neg (Nat.not_le.mpr hroom)]
            dsimp only
            rw [layout_room _ hlt, List.set_append_right _ _ (Nat.le_refl _), Nat.sub_self,
              List.set_cons_zero]
            by_cases hzero : ip = 0
            · rw [if_neg fun h => h.1 hzero, if_pos hzero, layout_room _ hlt, hzero]
              rfl
            · rw [if_pos ⟨hzero, hroom⟩, if_neg hzero, layout_empty, List.append_assoc,
                List.length_append, List.length_singleton, List.singleton_append,
                Nat.sub_sub, Nat.add_comm 1]
          · have hle : maxArpCacheNr ≤ (kept past).length := by omega
            have hfind : (layout (kept past) (freeMac past)).findIdx? (fun c => c.ipAddress = 0) =
                none := by
              rw [layout_full _ hle, List.findIdx?_eq_none_iff]
              intro c hc
              simpa using kept_ne_zero hc
            rw [hfind, if_neg fun h => hroom h.2, if_pos (Nat.not_lt.mp hroom)]

/-! ## What a lookup gives -/

variable {ip : UInt32}

/-- The first slot in use with an address holds what was recorded for it first. -/
theorem find_kept (hip : ip ≠ 0) (past : List ArpCall) :
    ((kept past).find? fun c => c.ipAddress = ip).map ArpCache.macAddress =
      (recorded ip past).getLast? := by
  induction past with
  | nil => rfl
  | cons call past ih =>
      cases call with
      | lookup ip' mac => exact ih
      | add ip' mac =>
          rw [kept, recorded]
          by_cases hsame : ip' = ip
          · subst hsame
            by_cases hroom : used past < maxArpCacheNr
            · rw [if_pos ⟨hip, hroom⟩, if_pos ⟨rfl, hroom⟩, List.find?_append, List.getLast?_cons,
                ← ih]
              cases (kept past).find? fun c => c.ipAddress = ip' with
              | none => simp [arpCacheInit]
              | some c => simp
            · rw [if_neg fun h => hroom h.2, if_neg fun h => hroom h.2]
              exact ih
          · rw [if_neg fun h : ip' = ip ∧ _ => hsame h.1, ← ih]
            split
            · rw [List.find?_append]
              simp [arpCacheInit, hsame]
            · rfl

theorem lookup_eq (table : CacheTable) (ip : UInt32) (mac : EthernetAddress) :
    arpLookupCache table ip mac =
      (((table.find? fun c => c.ipAddress = ip).map ArpCache.macAddress).map fun m => (m, 1)).getD
        (mac, 0) := by
  rw [arpLookupCache]
  cases table.find? fun c => c.ipAddress = ip with
  | none => rfl
  | some c => rfl

/-- An address other than 0 is looked up among the slots in use. -/
theorem lookup_kept (hip : ip ≠ 0) (past : List ArpCall) (mac : EthernetAddress) :
    arpLookupCache (tableAfter past) ip mac =
      ((recorded ip past).getLast?.map fun m => (m, 1)).getD (mac, 0) := by
  have hfree : ((⟨0, freeMac past⟩ :: List.replicate (maxArpCacheNr - 1) emptySlot).take
      (maxArpCacheNr - (kept past).length)).find? (fun c => c.ipAddress = ip) = none := by
    rw [List.find?_eq_none]
    intro c hc
    have hzero : c.ipAddress = 0 := by
      rcases List.mem_cons.mp (List.mem_of_mem_take hc) with rfl | hempty
      · rfl
      · rw [List.eq_of_mem_replicate hempty]
        rfl
    rw [hzero]
    simpa using hip.symm
  rw [lookup_eq, table_eq, layout, List.find?_append, hfree, Option.or_none, find_kept hip]

/-- The address 0 is looked up in the first free slot. -/
theorem lookup_zero (past : List ArpCall) (mac : EthernetAddress) :
    arpLookupCache (tableAfter past) 0 mac =
      if used past < maxArpCacheNr then (freeMac past, 1) else (mac, 0) := by
  have hlength := length_kept past
  have hkept : (kept past).find? (fun c => c.ipAddress = 0) = none := by
    rw [List.find?_eq_none]
    intro c hc
    simpa using kept_ne_zero hc
  rw [lookup_eq, table_eq]
  split
  · rw [layout_room _ (by omega), List.find?_append, hkept, List.find?_cons]
    simp
  · rw [layout_full _ (by omega), hkept]
    rfl

/-- An address that is found has a slot. -/
theorem not_evicted {table : CacheTable} {mac : EthernetAddress}
    (h : (arpLookupCache table ip mac).2 = 1) : ¬Evicted table ip := by
  intro hevicted
  have hnone : table.find? (fun c => c.ipAddress = ip) = none := by
    rw [List.find?_eq_none]
    intro c hc
    simpa using (hevicted c hc).1
  rw [lookup_eq, hnone] at h
  cases h

theorem last_added_mem {past : List ArpCall} {m : EthernetAddress}
    (h : lastAdded ip past = some m) : m ∈ recorded ip past := by
  induction past with
  | nil => cases h
  | cons call past ih =>
      cases call with
      | lookup ip' mac => exact ih h
      | add ip' mac =>
          rw [lastAdded] at h
          rw [recorded]
          by_cases hsame : ip' = ip
          · rw [if_pos hsame] at h
            split at h
            · next hroom =>
                cases h
                rw [if_pos ⟨hsame, hroom⟩]
                exact List.mem_cons_self
            · cases h
          · rw [if_neg hsame] at h
            rw [if_neg fun h => hsame h.1]
            exact ih h

/-- While there is room no call has been refused. -/
theorem last_added_room {past : List ArpCall} (h : used past < maxArpCacheNr) :
    lastAdded ip past = (recorded ip past).head? := by
  induction past with
  | nil => rfl
  | cons call past ih =>
      cases call with
      | lookup ip' mac => exact ih h
      | add ip' mac =>
          have hroom : used past < maxArpCacheNr := by
            rw [used] at h
            split at h
            · exact h
            · exact Nat.lt_of_succ_lt h
          rw [lastAdded, recorded]
          by_cases hsame : ip' = ip
          · rw [if_pos hsame, if_pos hroom, if_pos ⟨hsame, hroom⟩]
            rfl
          · rw [if_neg hsame, if_neg fun h => hsame h.1]
            exact ih hroom

/-- What a lookup of an address other than 0 finds was recorded for it. -/
theorem lookup_right_iff (hip : ip ≠ 0) (past : List ArpCall) (mac : EthernetAddress) :
    LookupRight past ip mac ↔
      ∀ m, lastAdded ip past = some m → (recorded ip past).getLast? = some m := by
  have hlookup := lookup_kept hip past mac
  cases hfirst : (recorded ip past).getLast? with
  | none =>
      rw [hfirst] at hlookup
      rw [LookupRight, hlookup]
      have hnone := List.getLast?_eq_none_iff.mp hfirst
      constructor
      · intro _ m hlast
        have hmem := last_added_mem hlast
        rw [hnone] at hmem
        cases hmem
      · intro hall
        refine ⟨fun hfound => absurd hfound Int.zero_ne_one, fun m hlast => ?_⟩
        cases hall m hlast
  | some first =>
      rw [hfirst] at hlookup
      have hfound : arpLookupCache (tableAfter past) ip mac = (first, 1) := hlookup
      rw [LookupRight, hfound]
      constructor
      · rintro ⟨-, hright⟩ m hlast
        have heq := hright m hlast (not_evicted (congrArg Prod.snd hfound))
        exact congrArg some (congrArg Prod.fst heq)
      · intro hall
        refine ⟨fun _ => List.mem_of_getLast? hfirst, fun m hlast _ => ?_⟩
        rw [Option.some.inj (hall m hlast)]

/-- What a lookup of the address 0 finds is the MAC of the first free slot. -/
theorem lookup_right_zero_iff (past : List ArpCall) (mac : EthernetAddress) :
    LookupRight past 0 mac ↔
      maxArpCacheNr ≤ used past ∨ lastAdded 0 past = some (freeMac past) := by
  have hlookup := lookup_zero past mac
  by_cases hroom : used past < maxArpCacheNr
  · rw [if_pos hroom] at hlookup
    rw [LookupRight, hlookup, or_iff_right (Nat.not_le.mpr hroom)]
    have hhead : lastAdded 0 past = (recorded 0 past).head? := last_added_room hroom
    constructor
    · rintro ⟨hrecorded, hright⟩
      obtain ⟨m, hm⟩ := List.isSome_head?.mpr (List.ne_nil_of_mem (hrecorded rfl)) |>
        Option.isSome_iff_exists.mp
      rw [← hhead] at hm
      have heq := hright m hm (not_evicted (congrArg Prod.snd hlookup))
      exact hm.trans (congrArg some (congrArg Prod.fst heq).symm)
    · intro hlast
      refine ⟨fun _ => last_added_mem hlast, fun m hm _ => ?_⟩
      rw [Option.some.inj (hlast.symm.trans hm)]
  · have hfull := Nat.not_lt.mp hroom
    have hlength := length_kept past
    rw [if_neg hroom] at hlookup
    rw [LookupRight, hlookup]
    refine iff_of_true ⟨fun hfound => absurd hfound ?_, fun m _ hkept => ?_⟩ (.inl hfull)
    · exact Int.zero_ne_one
    · refine absurd (fun c hc => ?_) hkept
      rw [table_eq, layout_full _ (by omega)] at hc
      exact ⟨kept_ne_zero hc, kept_ne_zero hc⟩

/-- A lookup is right exactly where the last MAC added for its address is that of the first. -/
theorem arp_cache_iff (past : List ArpCall) (ip : UInt32) (mac : EthernetAddress) :
    LookupRight past ip mac ↔ Unchanged past ip := by
  rw [Unchanged]
  split
  · next hzero =>
      rw [hzero]
      exact lookup_right_zero_iff past mac
  · next hip => exact lookup_right_iff hip past mac

/-- A host that changes its MAC is looked up at its old one. -/
theorem old_mac_found : ¬∀ (past : List ArpCall) (ip : UInt32) (mac : EthernetAddress),
    LookupRight past ip mac := by
  intro hall
  have hfound : arpLookupCache
      (tableAfter [.add 1 #v[2, 0, 0, 0, 0, 2], .add 1 #v[2, 0, 0, 0, 0, 1]]) 1
        #v[0, 0, 0, 0, 0, 0] = (#v[2, 0, 0, 0, 0, 1], 1) := by decide
  have hright := (hall _ _ #v[0, 0, 0, 0, 0, 0]).2 #v[2, 0, 0, 0, 0, 2] (by decide)
    (not_evicted (congrArg Prod.snd hfound))
  rw [hfound] at hright
  revert hright
  decide

end XBook.Arp
