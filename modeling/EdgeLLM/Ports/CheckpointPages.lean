import EdgeLLM.Ports.CheckpointReader
import Mathlib.Algebra.Order.BigOperators.Group.List
import Mathlib.Data.List.Dedup
import Mathlib.Data.List.ReduceOption

/-!
# The registered pages are those of the requested tensors

What `registerTensors` and `registerTensorRange` register is told in bytes of
the file: the registrations of a shard are the pages that the requested extents
touch, cut at the end of the file, and each extent is in one of them.

## Main results

* `registrations_exact` — for both functions, after any run of calls.
-/

namespace EdgeLLM.Ports.Checkpoint

open Verified Checked Safetensors

/-! ## Registrations as sets of bytes -/

def Registration.last (registration : Registration) : Nat :=
  registration.offset.toNat + registration.bytes.toNat

/-- Byte `x` of the file is registered. -/
def Registration.Holds (registration : Registration) (x : Nat) : Prop :=
  registration.offset.toNat ≤ x ∧ x < registration.last

/-- The device address of a byte of the file. -/
def Registration.address (registration : Registration) (x : UInt64) : UInt64 :=
  registration.deviceData + (x - registration.offset)

/-- The registrations are the pages of the wanted bytes. -/
structure PagesExact (page size : Nat) (wanted : Nat → Prop) (registrations : List Registration) :
    Prop where
  disjoint : registrations.Pairwise fun a b => ∀ x, ¬(a.Holds x ∧ b.Holds x)
  noSharedPage : registrations.Pairwise fun a b =>
    ∀ x y, a.Holds x → b.Holds y → x / page ≠ y / page
  starts : ∀ r ∈ registrations, r.offset.toNat % page = 0
  ends : ∀ r ∈ registrations, r.last % page = 0 ∨ r.last = size
  inside : ∀ r ∈ registrations, r.last ≤ size
  covers : ∀ x, (∃ r ∈ registrations, r.Holds x) ↔ x < size ∧ ∃ y, wanted y ∧ y / page = x / page

def toNats (range : Range) : Nat × Nat := Prod.map UInt64.toNat UInt64.toNat range

/-- A range as it is registered. -/
structure Registers (range : Range) (registration : Registration) : Prop where
  offset : registration.offset = range.1
  bytes : registration.bytes = range.2 - range.1
  nonempty : range.1 < range.2

theorem Registers.span {range : Range} {registration : Registration}
    (h : Registers range registration) :
    (registration.offset.toNat, registration.last) = toNats range := by
  have hlt := UInt64.lt_iff_toNat_lt.1 h.nonempty
  have hbytes := UInt64.toNat_sub_of_le _ _ (UInt64.le_iff_toNat_le.2 hlt.le)
  show (_, registration.offset.toNat + registration.bytes.toNat) = (range.1.toNat, range.2.toNat)
  rw [h.offset, h.bytes, hbytes, Nat.add_sub_cancel' hlt.le]

theorem spans_eq {ranges : List Range} {registrations : List Registration}
    (h : List.Forall₂ Registers ranges registrations) :
    registrations.map (fun r => (r.offset.toNat, r.last)) = ranges.map toNats := by
  induction h with
  | nil => rfl
  | cons hhead _ ih => rw [List.map_cons, List.map_cons, ih, hhead.span]

theorem before_total : Std.Total Before where
  total a b := by
    unfold Before
    simp only [UInt64.lt_iff_toNat_lt, UInt64.le_iff_toNat_le, ← UInt64.toNat_inj]
    omega

theorem before_trans : IsTrans Range Before where
  trans a b c := by
    unfold Before
    simp only [UInt64.lt_iff_toNat_lt, UInt64.le_iff_toNat_le, ← UInt64.toNat_inj]
    omega

theorem sortRanges_starts (ranges : List Range) :
    ((sortRanges ranges).map toNats).Pairwise fun a b => a.1 ≤ b.1 := by
  have := before_total
  have := before_trans
  rw [List.pairwise_map]
  apply (List.pairwise_insertionSort Before ranges).imp
  intro a b hle
  rcases hle with hlt | heq
  · exact (UInt64.lt_iff_toNat_lt.1 hlt).le
  · exact (congrArg UInt64.toNat heq.1).le

theorem toNat_max (a b : UInt64) : (max a b).toNat = max a.toNat b.toNat := by
  show (if a ≤ b then b else a).toNat = _
  by_cases hle : a ≤ b
  · rw [if_pos hle, Nat.max_eq_right (UInt64.le_iff_toNat_le.1 hle)]
  · rw [if_neg hle, Nat.max_eq_left]
    exact (Nat.not_le.1 fun h => hle (UInt64.le_iff_toNat_le.2 h)).le

theorem toNat_min (a b : UInt64) : (min a b).toNat = min a.toNat b.toNat := by
  show (if a ≤ b then a else b).toNat = _
  by_cases hle : a ≤ b
  · rw [if_pos hle, Nat.min_eq_left (UInt64.le_iff_toNat_le.1 hle)]
  · rw [if_neg hle, Nat.min_eq_right]
    exact (Nat.not_le.1 fun h => hle (UInt64.le_iff_toNat_le.2 h)).le

section Merged

variable {page size : Nat} {ranges : List Range} {registrations : List Registration}
variable {extent : Nat → Nat → Prop}

/-- The range is the pages of an extent. -/
def PagesOf (page size first last : Nat) (range : Range) : Prop :=
  toNats range = (pageStart page first, pageEnd page size last)

theorem merged_exact (hpage : 0 < page)
    (hbounds : ∀ first last, extent first last → first < last ∧ last ≤ size)
    (hranges : ∀ r ∈ ranges, ∃ first last, extent first last ∧ PagesOf page size first last r)
    (hall : ∀ first last, extent first last → ∃ r ∈ ranges, PagesOf page size first last r)
    (hregistered : List.Forall₂ Registers (mergeRanges (sortRanges ranges)) registrations) :
    PagesExact page size (fun y => ∃ first last, extent first last ∧ first ≤ y ∧ y < last)
      registrations ∧ ∀ first last, extent first last →
      ∃ r ∈ registrations, r.offset.toNat ≤ first ∧ last ≤ r.last := by
  have hspans : registrations.map (fun r => (r.offset.toNat, r.last)) =
      mergeRanges ((sortRanges ranges).map toNats) := by
    exact (spans_eq hregistered).trans
      (map_mergeRanges (fun _ _ => UInt64.lt_iff_toNat_lt.symm) toNat_max _)
  have hmem : ∀ r ∈ registrations,
      (r.offset.toNat, r.last) ∈ mergeRanges ((sortRanges ranges).map toNats) := by
    intro r hr
    rw [← hspans]
    exact List.mem_map_of_mem hr
  have hsorted := sortRanges_starts ranges
  have hsource : ∀ s ∈ (sortRanges ranges).map toNats, ∃ first last, extent first last ∧
      s = (pageStart page first, pageEnd page size last) := by
    intro s hs
    obtain ⟨range, hrange, rfl⟩ := List.mem_map.1 hs
    exact hranges range ((List.mem_insertionSort Before).1 hrange)
  have htarget : ∀ first last, extent first last →
      (pageStart page first, pageEnd page size last) ∈ (sortRanges ranges).map toNats := by
    intro first last hextent
    obtain ⟨range, hrange, hpages⟩ := hall first last hextent
    rw [← hpages]
    exact List.mem_map_of_mem ((List.mem_insertionSort Before).2 hrange)
  have hstarts : ∀ r ∈ registrations, r.offset.toNat % page = 0 := by
    intro r hr
    obtain ⟨s, hs, hstart⟩ := (mergeRanges_ends (hmem r hr)).1
    obtain ⟨first, last, _, rfl⟩ := hsource s hs
    rw [show r.offset.toNat = pageStart page first from hstart]
    exact pageStart_mod
  have hpairs : registrations.Pairwise fun a b => a.last < b.offset.toNat := by
    have hapart := mergeRanges_apart hsorted
    rw [← hspans, List.pairwise_map] at hapart
    exact hapart
  have hshared : registrations.Pairwise fun a b =>
      ∀ x y, a.Holds x → b.Holds y → x / page ≠ y / page := by
    apply hpairs.imp_of_mem
    intro a b _ hb hgap x y hx hy hsame
    have hwhole := Nat.div_mul_cancel (Nat.dvd_of_mod_eq_zero (hstarts b hb))
    have hbelow : x / page < b.offset.toNat / page := by
      rw [Nat.div_lt_iff_lt_mul hpage, hwhole]
      exact hx.2.trans hgap
    have habove := Nat.div_le_div_right (c := page) hy.1
    omega
  have hends : ∀ r ∈ registrations, ∃ last, 0 < last ∧ last ≤ size ∧
      r.last = pageEnd page size last := by
    intro r hr
    obtain ⟨s, hs, hend⟩ := (mergeRanges_ends (hmem r hr)).2
    obtain ⟨first, last, hextent, rfl⟩ := hsource s hs
    obtain ⟨hlt, hle⟩ := hbounds first last hextent
    exact ⟨last, by omega, hle, hend⟩
  refine ⟨⟨hshared.imp fun h x hx => h x x hx.1 hx.2 rfl, hshared, hstarts, ?_, ?_, ?_⟩, ?_⟩
  · intro r hr
    obtain ⟨last, hpos, hle, hend⟩ := hends r hr
    rw [hend]
    exact pageEnd_mod hpage hpos hle
  · intro r hr
    obtain ⟨last, hpos, hle, hend⟩ := hends r hr
    rw [hend, pageEnd_eq hpage hpos hle]
    exact Nat.min_le_left _ _
  · intro x
    have hregions : (∃ r ∈ registrations, r.Holds x) ↔
        ∃ s ∈ (sortRanges ranges).map toNats, s.1 ≤ x ∧ x < s.2 := by
      rw [← mem_mergeRanges hsorted, ← hspans]
      simp only [List.mem_map, exists_exists_and_eq_and]
      rfl
    rw [hregions]
    constructor
    · rintro ⟨s, hs, hin⟩
      obtain ⟨first, last, hextent, rfl⟩ := hsource s hs
      obtain ⟨hlt, hle⟩ := hbounds first last hextent
      obtain ⟨hx, y, hlow, hhigh, hsame⟩ := (mem_pages hpage hlt hle).1 hin
      exact ⟨hx, y, ⟨first, last, hextent, hlow, hhigh⟩, hsame⟩
    · rintro ⟨hx, y, ⟨first, last, hextent, hlow, hhigh⟩, hsame⟩
      obtain ⟨hlt, hle⟩ := hbounds first last hextent
      exact ⟨_, htarget first last hextent, (mem_pages hpage hlt hle).2 ⟨hx, y, hlow, hhigh, hsame⟩⟩
  · intro first last hextent
    obtain ⟨hlt, hle⟩ := hbounds first last hextent
    obtain ⟨m, hm, hlow, hhigh⟩ := mergeRanges_contains hsorted (htarget first last hextent)
    rw [← hspans] at hm
    obtain ⟨r, hr, rfl⟩ := List.mem_map.1 hm
    have hfirst := (mem_pages hpage hlt hle).2 ⟨by omega, first, le_rfl, hlt, rfl⟩
    have hlast := (mem_pages hpage hlt hle).2 ⟨by omega, last - 1, by omega, by omega, rfl⟩
    exact ⟨r, hr, hlow.trans hfirst.1, by omega⟩

theorem single_exact {first last : Nat} {range : Range} {deviceData : UInt64} (hpage : 0 < page)
    (hlt : first < last) (hle : last ≤ size) (hpages : PagesOf page size first last range)
    (hrange : range.1 < range.2) : PagesExact page size (fun y => first ≤ y ∧ y < last)
      [⟨range.1, range.2 - range.1, deviceData⟩] ∧ range.1.toNat ≤ first ∧
    last ≤ Registration.last ⟨range.1, range.2 - range.1, deviceData⟩ := by
  obtain ⟨hexact, hcontains⟩ := @merged_exact page size [range]
    [⟨range.1, range.2 - range.1, deviceData⟩] (fun a b => a = first ∧ b = last) hpage
    (by rintro _ _ ⟨rfl, rfl⟩; exact ⟨hlt, hle⟩)
    (by
      intro r hr
      rw [List.mem_singleton.1 hr]
      exact ⟨first, last, ⟨rfl, rfl⟩, hpages⟩)
    (by rintro _ _ ⟨rfl, rfl⟩; exact ⟨range, List.mem_cons_self, hpages⟩)
    (.cons ⟨rfl, rfl, hrange⟩ .nil)
  obtain ⟨r, hr, hin⟩ := hcontains first last ⟨rfl, rfl⟩
  rw [List.mem_singleton.1 hr] at hin
  refine ⟨⟨hexact.disjoint, hexact.noSharedPage, hexact.starts, hexact.ends, hexact.inside, ?_⟩,
    hin⟩
  intro x
  rw [hexact.covers]
  constructor
  · rintro ⟨hx, y, ⟨_, _, ⟨rfl, rfl⟩, hy⟩, hsame⟩
    exact ⟨hx, y, hy, hsame⟩
  · rintro ⟨hx, y, hy, hsame⟩
    exact ⟨hx, y, ⟨first, last, ⟨rfl, rfl⟩, hy⟩, hsame⟩

end Merged

/-! ## Tensors -/

/-- The name of a tensor, its shard and its entry. -/
structure Located (host : Host) (reader : CheckpointReader) (name path : String) (shard : Shard)
    (info : TensorInfo) : Prop where
  lookup : reader.mTensorShards.lookup name = some path
  opened : reader.openShard host path = .ok shard
  found : reader.tensorInfo name shard = .ok info

/-- The position of a tensor in the file. -/
def Shard.first (shard : Shard) (info : TensorInfo) : Nat :=
  shard.dataOffset.toNat + info.offset.toNat

/-- Every tensor lies in its file. -/
def CheckpointReader.InFile (host : Host) (reader : CheckpointReader) : Prop :=
  ∀ {name path shard info}, Located host reader name path shard info →
    shard.first info + info.bytes.toNat ≤ shard.file.data.length

/-- The extent of a named tensor that is not empty. -/
def Extent (host : Host) (reader : CheckpointReader) (names : List String) (path : String)
    (first last : Nat) : Prop :=
  ∃ name ∈ names, ∃ shard info, Located host reader name path shard info ∧ info.bytes ≠ 0 ∧
    first = shard.first info ∧ last = shard.first info + info.bytes.toNat

section Tensors

variable {host : Host} {reader : CheckpointReader} {name path : String} {names : List String}
variable {shard : Shard} {info : TensorInfo} {bits : Nat}

theorem toNat_pos_of_ne {bytes : UInt64} (h : bytes ≠ 0) : 0 < bytes.toNat :=
  Nat.pos_of_ne_zero fun hzero => h (UInt64.toNat_inj.1 hzero)

theorem toNat_add_of_le {a b : UInt64} {size : Nat} (h : a.toNat + b.toNat ≤ size)
    (hsize : size < 2 ^ 64) : (a + b).toNat = a.toNat + b.toNat := by
  rw [UInt64.toNat_add]
  exact Nat.mod_eq_of_lt (h.trans_lt hsize)

theorem tensorBegin_toNat (h : shard.first info + info.bytes.toNat ≤ shard.file.data.length) :
    (shard.dataOffset + info.offset).toNat = shard.first info :=
  toNat_add_of_le ((Nat.le_add_right _ _).trans h) shard.file.size_lt

theorem pageRange_pages {pageSize : UInt64} {range : Range} (hpage : pageSize.toNat = 2 ^ bits)
    (hin : shard.first info + info.bytes.toNat ≤ shard.file.data.length)
    (h : pageRange pageSize name shard info = .ok range) :
    PagesOf (2 ^ bits) shard.file.data.length (shard.first info)
      (shard.first info + info.bytes.toNat) range := by
  unfold pageRange at h
  simp only [check_bind_eq_ok] at h
  obtain ⟨_, _, h⟩ := h
  have hrange := Except.ok.inj h
  have hbegin := tensorBegin_toNat hin
  have hend : (shard.dataOffset + info.offset + info.bytes).toNat =
      shard.first info + info.bytes.toNat := by
    rw [toNat_add_of_le _ shard.file.size_lt, hbegin]
    rw [hbegin]
    exact hin
  have hremainder := toNat_and_mask hpage (shard.dataOffset + info.offset + info.bytes)
  have hlt := Nat.mod_lt (shard.first info + info.bytes.toNat) (Nat.two_pow_pos bits)
  have hsize := shard.file.size_lt
  rw [hend, hpage] at hremainder
  rw [← hrange]
  unfold PagesOf toNats pageStart pageEnd
  rw [Prod.map_apply, Prod.mk.injEq]
  constructor
  · rw [toNat_and_not_mask hpage, hbegin, hpage]
  · by_cases hwhole : (shard.first info + info.bytes.toNat) % 2 ^ bits = 0
    · rw [hwhole] at hremainder
      rw [if_neg (not_not.2 (UInt64.toNat_inj.1 hremainder)), if_pos hwhole, hend]
    · have hnot : shard.dataOffset + info.offset + info.bytes &&& (pageSize - 1) ≠ 0 := by
        intro hzero
        rw [hzero] at hremainder
        exact hwhole hremainder.symm
      have hrest : (pageSize - (shard.dataOffset + info.offset + info.bytes &&&
          (pageSize - 1))).toNat = 2 ^ bits - (shard.first info + info.bytes.toNat) % 2 ^ bits := by
        rw [UInt64.toNat_sub_of_le _ _ (UInt64.le_iff_toNat_le.2 (by omega)), hpage, hremainder]
      have hroom : (shard.file.getSize - (shard.dataOffset + info.offset + info.bytes)).toNat =
          shard.file.data.length - (shard.first info + info.bytes.toNat) := by
        rw [UInt64.toNat_sub_of_le _ _ (UInt64.le_iff_toNat_le.2 (by rw [hend, getSize_toNat]; omega)),
          hend, getSize_toNat]
      have hwidened := toNat_min (pageSize - (shard.dataOffset + info.offset + info.bytes &&&
        (pageSize - 1))) (shard.file.getSize - (shard.dataOffset + info.offset + info.bytes))
      rw [hrest, hroom] at hwidened
      rw [if_pos hnot, if_neg hwhole, toNat_add_of_le _ hsize, hend, hwidened]
      rw [hend, hwidened]
      omega

theorem requestedRange_ok {requested : Option (String × Range)}
    (h : requestedRange host reader name = .ok requested)
    (hlookup : reader.mTensorShards.lookup name = some path) :
    ∃ shard info, Located host reader name path shard info ∧ if info.bytes = 0 then requested = none
      else ∃ range, requested = some (path, range) ∧
        pageRange host.systemPageSize name shard info = .ok range := by
  unfold requestedRange at h
  rw [hlookup] at h
  dsimp only at h
  rw [bind_eq_ok] at h
  obtain ⟨shard, hshard, h⟩ := h
  rw [bind_eq_ok] at h
  obtain ⟨info, hinfo, h⟩ := h
  refine ⟨shard, info, ⟨hlookup, hshard, hinfo⟩, ?_⟩
  by_cases hempty : info.bytes = 0
  · rw [if_pos hempty] at h ⊢
    exact (Except.ok.inj h).symm
  · rw [if_neg hempty, bind_eq_ok] at h
    obtain ⟨range, hrange, h⟩ := h
    rw [if_neg hempty]
    exact ⟨range, (Except.ok.inj h).symm, hrange⟩

theorem requested_mem {requested : List (Option (String × Range))} {range : Range}
    (hrequested : names.mapM (requestedRange host reader) = .ok requested)
    (hentry : (path, range) ∈ requested.reduceOption) :
    ∃ name ∈ names, ∃ shard info, Located host reader name path shard info ∧ info.bytes ≠ 0 ∧
      pageRange host.systemPageSize name shard info = .ok range := by
  obtain ⟨name, hname, hresult⟩ :=
    exists_of_mem_mapM hrequested (List.reduceOption_mem_iff.1 hentry)
  cases hlookup : reader.mTensorShards.lookup name with
  | none =>
    rw [requestedRange, hlookup] at hresult
    injection hresult with hnone
    cases hnone
  | some found =>
    obtain ⟨shard, info, hlocated, hcase⟩ := requestedRange_ok hresult hlookup
    by_cases hempty : info.bytes = 0
    · rw [if_pos hempty] at hcase
      cases hcase
    · rw [if_neg hempty] at hcase
      obtain ⟨_, hsame, hpages⟩ := hcase
      cases hsame
      exact ⟨name, hname, shard, info, hlocated, hempty, hpages⟩

theorem mem_requested {requested : List (Option (String × Range))}
    (hrequested : names.mapM (requestedRange host reader) = .ok requested) (hname : name ∈ names)
    (hlocated : Located host reader name path shard info) (hbytes : info.bytes ≠ 0) :
    ∃ range, (path, range) ∈ requested.reduceOption ∧
      pageRange host.systemPageSize name shard info = .ok range := by
  obtain ⟨result, hmem, hresult⟩ := exists_of_mapM hrequested hname
  obtain ⟨shard', info', hlocated', hcase⟩ := requestedRange_ok hresult hlocated.lookup
  obtain rfl := Except.ok.inj (hlocated.opened.symm.trans hlocated'.opened)
  obtain rfl := Except.ok.inj (hlocated.found.symm.trans hlocated'.found)
  rw [if_neg hbytes] at hcase
  obtain ⟨range, rfl, hpages⟩ := hcase
  exact ⟨range, List.reduceOption_mem_iff.2 hmem, hpages⟩

variable {driver : Driver}

/-- What a state has registered since another one, for one shard. -/
def Gained (path : String) (before after : Registered) (more : List Registration) : Prop :=
  after.registrations path = before.registrations path ++ more ∧
    ∀ other, other ≠ path → after.registrations other = before.registrations other

theorem gained_push (state : Registered) (registration : Registration) (total : Nat) :
    Gained path state (state.push path registration total) [registration] :=
  ⟨Function.update_self _ _ _, fun _ hother => Function.update_of_ne hother _ _⟩

theorem registerRanges_gained (ranges : List Range) : ∀ state,
    Ensures (forEach (registerRange driver path) ranges)
      (fun _ after => ∃ more, List.Forall₂ Registers ranges more ∧ Gained path state after more)
      (fun _ _ => True) state := by
  induction ranges with
  | nil =>
    intro state
    exact ⟨[], .nil, (List.append_nil _).symm, fun _ _ => rfl⟩
  | cons range rest ih =>
    intro state
    rw [Checked.forEach, registerRange, ensures_bind, ensures_bind, ensures_check]
    refine ⟨fun hnonempty => ?_, fun _ => trivial⟩
    rw [ensures_bind, ensures_ofExcept]
    cases driver.hostRegister path range.1 (range.2 - range.1) with
    | error e => exact trivial
    | ok deviceData =>
      rw [outcome_ok, ensures_modify]
      apply (ih _).mono _ fun _ _ _ => trivial
      rintro _ after ⟨more, hmore, hpath, hothers⟩
      have hpush := @gained_push path state ⟨range.1, range.2 - range.1, deviceData⟩
        (state.mRegisteredBytes + (range.2 - range.1).toNat)
      refine ⟨⟨range.1, range.2 - range.1, deviceData⟩ :: more, .cons ⟨rfl, rfl, hnonempty⟩ hmore, ?_, fun other hne =>
        (hothers other hne).trans (hpush.2 other hne)⟩
      rw [hpath, hpush.1, List.append_assoc]
      rfl

theorem registerShards_registers {rangesByShard : List (String × Range)} {paths : List String}
    (hnodup : paths.Nodup) : ∀ state, Ensures (forEach (registerShard driver rangesByShard) paths)
      (fun _ after => (∀ path ∈ paths, List.Forall₂ Registers
        (mergeRanges (sortRanges (rangesAt rangesByShard path))) (after.registrations path)) ∧
        ∀ path ∉ paths, after.registrations path = state.registrations path)
      (fun _ _ => True) state := by
  induction paths with
  | nil =>
    intro state
    exact ⟨fun _ hpath => absurd hpath List.not_mem_nil, fun _ _ => rfl⟩
  | cons path rest ih =>
    intro state
    obtain ⟨hnew, hrest⟩ := List.nodup_cons.1 hnodup
    rw [Checked.forEach, registerShard, ensures_bind, ensures_bind, ensures_read, ensures_bind,
      ensures_check]
    refine ⟨fun hempty => ?_, fun _ => trivial⟩
    apply (registerRanges_gained _ state).mono _ fun _ _ _ => trivial
    rintro _ middle ⟨more, hmore, hpath, hothers⟩
    apply (ih hrest middle).mono _ fun _ _ _ => trivial
    rintro _ after ⟨hlater, hkept⟩
    constructor
    · intro other hother
      rcases List.mem_cons.1 hother with heq | hin
      · rw [heq, hkept path hnew, hpath, hempty, List.nil_append]
        exact hmore
      · exact hlater other hin
    · intro other hother
      rw [hkept other fun hin => hother (List.mem_cons_of_mem _ hin),
        hothers other fun heq => hother (heq ▸ List.mem_cons_self)]

/-! ## Counting -/

/-- Whatever is registered counts. -/
structure Counted (reader : CheckpointReader) (state : Registered) : Prop where
  nonempty : ∀ path, ∀ r ∈ state.registrations path, 0 < r.bytes.toNat
  counted : ∀ path, state.registrations path ≠ [] →
    path ∈ reader.mTensorShards.map Prod.snd ∧ 0 < state.mRegisteredBytes

theorem counted_init : Counted reader {} :=
  ⟨fun _ _ hr => absurd hr List.not_mem_nil, fun _ hne => absurd rfl hne⟩

theorem Counted.push {state : Registered} {registration : Registration} {total : Nat}
    (h : Counted reader state) (hpath : path ∈ reader.mTensorShards.map Prod.snd)
    (hbytes : 0 < registration.bytes.toNat) (htotal : 0 < total) :
    Counted reader (state.push path registration total) := by
  obtain ⟨hself, hothers⟩ := @gained_push path state registration total
  constructor
  · intro other r hr
    by_cases heq : other = path
    · rw [heq, hself, List.mem_append, List.mem_singleton] at hr
      rcases hr with hold | hnew
      · exact h.nonempty path r hold
      · exact hnew ▸ hbytes
    · rw [hothers other heq] at hr
      exact h.nonempty other r hr
  · intro other hne
    by_cases heq : other = path
    · exact ⟨heq ▸ hpath, htotal⟩
    · rw [hothers other heq] at hne
      exact ⟨(h.counted other hne).1, htotal⟩

theorem mem_of_lookup {name : String} (h : reader.mTensorShards.lookup name = some path) :
    path ∈ reader.mTensorShards.map Prod.snd := by
  obtain ⟨before, after, hsplit, _⟩ := List.lookup_eq_some_iff.1 h
  rw [hsplit, List.map_append, List.map_cons]
  exact List.mem_append_right _ List.mem_cons_self

theorem sub_pos_of_lt {a b : UInt64} (h : a < b) : 0 < (b - a).toNat := by
  have hlt := UInt64.lt_iff_toNat_lt.1 h
  rw [UInt64.toNat_sub_of_le _ _ (UInt64.le_iff_toNat_le.2 hlt.le)]
  omega

theorem registerRange_counted (hpath : path ∈ reader.mTensorShards.map Prod.snd) (range : Range) :
    Keeps (Counted reader) (registerRange driver path range) := by
  intro state h
  rw [registerRange, ensures_bind, ensures_check]
  refine ⟨fun hnonempty => ?_, fun _ => h⟩
  rw [ensures_bind, ensures_ofExcept]
  cases driver.hostRegister path range.1 (range.2 - range.1) with
  | error e => exact h
  | ok deviceData =>
    rw [outcome_ok, ensures_modify]
    exact h.push hpath (sub_pos_of_lt hnonempty) (Nat.add_pos_right _ (sub_pos_of_lt hnonempty))

theorem registerTensors_counted (names : List String) :
    Keeps (Counted reader) (registerTensors host driver reader names) := by
  apply (keeps_ofExcept _).bind
  intro _ state h
  rw [ensures_bind, ensures_ofExcept]
  cases hrequested : names.mapM (requestedRange host reader) with
  | error e => exact h
  | ok requested =>
    rw [outcome_ok]
    apply (Ensures.forEach (fun paths after => Counted reader after ∧
      ∀ path ∈ paths, path ∈ reader.mTensorShards.map Prod.snd) _ _ _ ⟨h, _⟩).mono
        (fun _ _ hafter => hafter.1) fun _ _ hafter => hafter
    · rintro path rest before ⟨hbefore, hpaths⟩
      apply (show Keeps (Counted reader) (registerShard driver requested.reduceOption path) from
        ?_) before hbefore |>.mono (fun _ _ hafter =>
          ⟨hafter, fun other hother => hpaths other (List.mem_cons_of_mem _ hother)⟩)
          fun _ _ hafter => hafter
      exact (keeps_read _).bind fun _ => .checked <|
        Keeps.forEach (registerRange_counted (hpaths path List.mem_cons_self)) _
    · intro path hpath
      rw [(host.iterate_perm _).mem_iff, List.mem_dedup, List.mem_map] at hpath
      obtain ⟨⟨_, range⟩, hentry, rfl⟩ := hpath
      obtain ⟨_, _, _, _, hlocated, _⟩ := requested_mem hrequested hentry
      exact mem_of_lookup hlocated.lookup

theorem Counted.unregister {state : Registered} (h : Counted reader state) :
    Counted reader (unregisterTensors driver reader state) := by
  constructor
  · intro other r hr
    exact h.nonempty other r (List.mem_of_mem_filter hr)
  · intro other hne
    obtain ⟨r, hr⟩ := List.exists_mem_of_ne_nil _ hne
    obtain ⟨hpath, _⟩ := h.counted other (List.ne_nil_of_mem (List.mem_of_mem_filter hr))
    refine ⟨hpath, ?_⟩
    have hone := List.single_le_sum (fun _ _ => Nat.zero_le _) _
      (List.mem_map_of_mem (f := fun registration : Registration => registration.bytes.toNat) hr)
    have hall := List.single_le_sum (fun _ _ => Nat.zero_le _) _
      (List.mem_map_of_mem (f := fun path => (((state.registrations path).filter
        fun registration => !driver.hostUnregister path registration).map
          fun registration => registration.bytes.toNat).sum) (List.mem_dedup.2 hpath))
    have hpos := h.nonempty other r (List.mem_of_mem_filter hr)
    exact hpos.trans_le (hone.trans hall)

end Tensors

/-- One registration has the pages of the part, and the view points at its first byte. -/
def RangeExact (host : Host) (reader : CheckpointReader) (name : String) (offset bytes : UInt64)
    (view : View) (after : Registered) : Prop :=
  ∃ path shard info r, Located host reader name path shard info ∧
    (∀ other, after.registrations other = if other = path then [r] else []) ∧
    PagesExact host.systemPageSize.toNat shard.file.data.length
      (fun y => shard.first info + offset.toNat ≤ y ∧
        y < shard.first info + offset.toNat + bytes.toNat) [r] ∧
    r.offset.toNat ≤ shard.first info + offset.toNat ∧
    shard.first info + offset.toNat + bytes.toNat ≤ r.last ∧
    view = ⟨info.dtype, info.shape, shard.dataOffset + info.offset + offset,
      some (r.address (shard.dataOffset + info.offset + offset)), bytes⟩

section Range

variable {host : Host} {reader : CheckpointReader} {driver : Driver} {name : String}
variable {offset bytes : UInt64} {bits : Nat}

theorem partRange_pages {pageSize rangeBegin : UInt64} {file : MappedFile}
    (hpage : pageSize.toNat = 2 ^ bits) (hbytes : 0 < bytes.toNat)
    (hin : rangeBegin.toNat + bytes.toNat ≤ file.data.length)
    (hlt : rangeBegin &&& ~~~(pageSize - 1) <
      min ((rangeBegin + bytes + pageSize - 1) &&& ~~~(pageSize - 1)) file.getSize) :
    PagesOf pageSize.toNat file.data.length rangeBegin.toNat (rangeBegin.toNat + bytes.toNat)
      (rangeBegin &&& ~~~(pageSize - 1),
        min ((rangeBegin + bytes + pageSize - 1) &&& ~~~(pageSize - 1)) file.getSize) := by
  have hsize := file.size_lt
  have hpos : 0 < pageSize.toNat := by
    rw [hpage]
    exact Nat.two_pow_pos bits
  have hbound := pageSize.toNat_lt
  have hup : (rangeBegin + bytes + pageSize - 1).toNat =
      (rangeBegin.toNat + bytes.toNat + pageSize.toNat - 1) % 2 ^ 64 := by
    have hone : (1 : UInt64).toNat = 1 := rfl
    rw [UInt64.toNat_sub, UInt64.toNat_add, UInt64.toNat_add, hone]
    omega
  have hmask := toNat_and_not_mask hpage (rangeBegin + bytes + pageSize - 1)
  rw [hup] at hmask
  have hmin := toNat_min ((rangeBegin + bytes + pageSize - 1) &&& ~~~(pageSize - 1)) file.getSize
  rw [hmask, getSize_toNat] at hmin
  have hfits : rangeBegin.toNat + bytes.toNat + pageSize.toNat - 1 < 2 ^ 64 := by
    -- else the rounded end wraps to 0
    by_contra hwraps
    have hsmall : (rangeBegin.toNat + bytes.toNat + pageSize.toNat - 1) % 2 ^ 64 <
        pageSize.toNat := by omega
    rw [Nat.mod_eq_of_lt hsmall, Nat.sub_self, Nat.zero_min] at hmin
    rw [UInt64.lt_iff_toNat_lt, hmin] at hlt
    exact absurd hlt (Nat.not_lt_zero _)
  rw [Nat.mod_eq_of_lt hfits] at hmin
  unfold PagesOf toNats
  rw [Prod.map_apply, hmin, toNat_and_not_mask hpage, pageEnd_eq hpos (by omega) hin, Prod.mk.injEq]
  refine ⟨rfl, ?_⟩
  have hround : rangeBegin.toNat + bytes.toNat + pageSize.toNat - 1 -
      (rangeBegin.toNat + bytes.toNat + pageSize.toNat - 1) % pageSize.toNat =
        ((rangeBegin.toNat + bytes.toNat - 1) / pageSize.toNat + 1) * pageSize.toNat := by
    have hsplit := Nat.div_add_mod' (rangeBegin.toNat + bytes.toNat + pageSize.toNat - 1)
      pageSize.toNat
    have hnext : rangeBegin.toNat + bytes.toNat + pageSize.toNat - 1 =
        rangeBegin.toNat + bytes.toNat - 1 + pageSize.toNat := by omega
    rw [← Nat.add_div_right _ hpos, ← hnext]
    omega
  rw [hround, Nat.min_comm]

theorem registerTensorRange_ensures (hpage : host.systemPageSize.toNat = 2 ^ bits)
    (hfile : reader.InFile host) {state : Registered} (h : Counted reader state) :
    Ensures (registerTensorRange host driver reader name offset bytes)
      (fun view after => RangeExact host reader name offset bytes view after ∧
        Counted reader after) (fun _ after => Counted reader after) state := by
  rw [registerTensorRange, ensures_bind, ensures_read, ensures_bind, ensures_check]
  refine ⟨fun hzero => ?_, fun _ => h⟩
  have hnone : ∀ path, state.registrations path = [] := by
    intro path
    by_contra hne
    have hpos := (h.counted path hne).2
    omega
  rw [ensures_bind, ensures_ofExcept]
  cases hlookup : reader.mTensorShards.lookup name with
  | none => exact h
  | some path =>
    rw [Option.elim_some, outcome_ok, ensures_bind, ensures_ofExcept]
    cases hopened : reader.openShard host path with
    | error e => exact h
    | ok shard =>
      rw [outcome_ok, ensures_bind, ensures_ofExcept]
      cases hfound : reader.tensorInfo name shard with
      | error e => exact h
      | ok info =>
        have hlocated : Located host reader name path shard info := ⟨hlookup, hopened, hfound⟩
        have hin := hfile hlocated
        have hsize := shard.file.size_lt
        rw [outcome_ok, ensures_bind, ensures_check]
        refine ⟨fun hpart => ?_, fun _ => h⟩
        obtain ⟨hoffset, hbytes, hrest⟩ := hpart
        rw [UInt64.le_iff_toNat_le, UInt64.toNat_sub_of_le _ _ hoffset] at hrest
        rw [UInt64.le_iff_toNat_le] at hoffset
        have hpos : 0 < bytes.toNat := UInt64.lt_iff_toNat_lt.1 hbytes
        have hbegin := tensorBegin_toNat hin
        have hrange : (shard.dataOffset + info.offset + offset).toNat =
            shard.first info + offset.toNat := by
          rw [toNat_add_of_le _ hsize, hbegin]
          omega
        have hinside : (shard.dataOffset + info.offset + offset).toNat + bytes.toNat ≤
            shard.file.data.length := by omega
        rw [ensures_bind, ensures_ofExcept]
        cases checkPageSize host.systemPageSize with
        | error e => exact h
        | ok _ =>
          rw [outcome_ok, ensures_bind, ensures_check]
          refine ⟨fun hlt => ?_, fun _ => h⟩
          have hpages := partRange_pages hpage hpos hinside hlt
          rw [hrange] at hpages
          generalize shard.dataOffset + info.offset + offset &&& ~~~(host.systemPageSize - 1) =
            first at hlt hpages ⊢
          generalize min _ shard.file.getSize = last at hlt hpages ⊢
          rw [ensures_bind, ensures_ofExcept]
          cases driver.hostRegister path first (last - first) with
          | error e => exact h
          | ok deviceData =>
            rw [outcome_ok, ensures_bind, ensures_modify, ensures_pure]
            obtain ⟨hself, hothers⟩ := @gained_push path state ⟨first, last - first, deviceData⟩
              (last - first).toNat
            obtain ⟨hexact, hstart, hend⟩ := @single_exact _ _ _ _ (first, last) deviceData
              (by rw [hpage]; exact Nat.two_pow_pos bits) (by omega) (by omega) hpages hlt
            refine ⟨⟨path, shard, info, ⟨first, last - first, deviceData⟩, hlocated,
              fun other => ?_, hexact, hstart, hend, ?_⟩,
              h.push (mem_of_lookup hlookup) (sub_pos_of_lt hlt) (sub_pos_of_lt hlt)⟩
            · by_cases heq : other = path
              · rw [if_pos heq, heq, hself, hnone, List.nil_append]
              · rw [if_neg heq, hothers other heq, hnone]
            · rw [View.mk.injEq]
              exact ⟨rfl, rfl, by rw [UInt64.add_comm, UInt64.sub_add_cancel], rfl, rfl⟩

variable {path : String} {shard : Shard} {info : TensorInfo} {state : Registered}

theorem findHost_located (h : Located host reader name path shard info) :
    findHost host reader name = .ok (some ⟨info.dtype, info.shape,
      shard.dataOffset + info.offset, none, info.bytes⟩) := by
  rw [findHost, h.lookup]
  dsimp only
  rw [h.opened]
  show (reader.tensorInfo name shard >>= _) = _
  rw [h.found]
  rfl

theorem find_empty (h : Located host reader name path shard info) (hbytes : info.bytes = 0) :
    find host reader state name = .ok (some ⟨info.dtype, info.shape,
      shard.dataOffset + info.offset, none, info.bytes⟩) := by
  rw [find, findHost_located h]
  show (if info.bytes > 0 then _ else _) = _
  rw [if_neg (by rw [hbytes]; decide)]
  rfl

theorem find_mapped (h : Located host reader name path shard info) (hbytes : info.bytes ≠ 0)
    (hin : shard.first info + info.bytes.toNat ≤ shard.file.data.length)
    (hinside : ∀ r ∈ state.registrations path, r.last ≤ shard.file.data.length)
    (hmapped : ∃ r ∈ state.registrations path,
      r.offset.toNat ≤ shard.first info ∧ shard.first info + info.bytes.toNat ≤ r.last) :
    ∃ r ∈ state.registrations path, r.offset.toNat ≤ shard.first info ∧
      shard.first info + info.bytes.toNat ≤ r.last ∧
      find host reader state name = .ok (some ⟨info.dtype, info.shape,
        shard.dataOffset + info.offset, some (r.address (shard.dataOffset + info.offset)),
        info.bytes⟩) := by
  have hsize := shard.file.size_lt
  have hbegin := tensorBegin_toNat hin
  have hend : (shard.dataOffset + info.offset + info.bytes).toNat =
      shard.first info + info.bytes.toNat := by
    rw [toNat_add_of_le _ hsize, hbegin]
    rw [hbegin]
    exact hin
  have hcontains : ∀ r ∈ state.registrations path, (r.offset ≤ shard.dataOffset + info.offset ∧
        shard.dataOffset + info.offset + info.bytes ≤ r.offset + r.bytes) ↔
      r.offset.toNat ≤ shard.first info ∧ shard.first info + info.bytes.toNat ≤ r.last := by
    intro r hr
    rw [UInt64.le_iff_toNat_le, UInt64.le_iff_toNat_le, hbegin, hend,
      toNat_add_of_le (hinside r hr) hsize]
    rfl
  have haddress : ∃ r ∈ state.registrations path, r.offset.toNat ≤ shard.first info ∧
      shard.first info + info.bytes.toNat ≤ r.last ∧ deviceAddress host reader state name =
        .ok (r.address (shard.dataOffset + info.offset)) := by
    rw [deviceAddress, h.lookup]
    dsimp only
    rw [h.opened]
    show ∃ r ∈ state.registrations path, _ ∧ _ ∧ (reader.tensorInfo name shard >>= _) = _
    rw [h.found]
    cases hfind : containing (state.registrations path) (shard.dataOffset + info.offset)
        info.bytes with
    | none =>
      obtain ⟨r, hr, hmapped⟩ := hmapped
      have hnone := List.find?_eq_none.1 hfind r hr
      exact absurd (decide_eq_true ((hcontains r hr).2 hmapped)) hnone
    | some r =>
      have hr := List.mem_of_find?_eq_some hfind
      have hsat := List.find?_some hfind
      obtain ⟨hlow, hhigh⟩ := (hcontains r hr).1 (of_decide_eq_true hsat)
      refine ⟨r, hr, hlow, hhigh, ?_⟩
      show (containing _ _ _).elim _ _ = _
      rw [hfind]
      rfl
  obtain ⟨r, hr, hlow, hhigh, hresult⟩ := haddress
  refine ⟨r, hr, hlow, hhigh, ?_⟩
  rw [find, findHost_located h]
  show (if info.bytes > 0 then _ else _) = _
  rw [if_pos (show 0 < info.bytes from UInt64.lt_iff_toNat_lt.2 (toNat_pos_of_ne hbytes)), hresult]
  rfl

end Range

/-! ## Runs -/

/-- A call on the reader. -/
inductive Call where
  | tensors (names : List String)
  | range (name : String) (offset bytes : UInt64)
  | unregister

/-- The state behind a call, whether it returns or throws. -/
def Call.run (host : Host) (reader : CheckpointReader) (state : Registered) :
    Driver × Call → Registered
  | (driver, .tensors names) => (registerTensors host driver reader names state).2
  | (driver, .range name offset bytes) =>
    (registerTensorRange host driver reader name offset bytes state).2
  | (driver, .unregister) => unregisterTensors driver reader state

def execute (host : Host) (reader : CheckpointReader) (calls : List (Driver × Call)) : Registered :=
  calls.foldl (Call.run host reader) {}

/-- What a successful `registerTensors` leaves behind. -/
structure TensorsExact (host : Host) (reader : CheckpointReader) (names : List String)
    (before after : Registered) : Prop where
  /-- A shard with a named tensor has the pages of these tensors. -/
  pages : ∀ path, (∃ first last, Extent host reader names path first last) →
    ∃ shard, reader.openShard host path = .ok shard ∧
      PagesExact host.systemPageSize.toNat shard.file.data.length
        (fun y => ∃ first last, Extent host reader names path first last ∧ first ≤ y ∧ y < last)
        (after.registrations path)
  /-- The others stay as they were. -/
  others : ∀ path, (¬∃ first last, Extent host reader names path first last) →
    after.registrations path = before.registrations path
  /-- A named tensor is found: at a null pointer if it is empty, else at the address of its
  first byte in a registration that has all of it. -/
  found : ∀ name ∈ names, ∀ path, reader.mTensorShards.lookup name = some path →
    ∃ shard info, Located host reader name path shard info ∧
      if info.bytes = 0 then
        find host reader after name = .ok (some ⟨info.dtype, info.shape,
          shard.dataOffset + info.offset, none, info.bytes⟩)
      else
        ∃ r ∈ after.registrations path, r.offset.toNat ≤ shard.first info ∧
          shard.first info + info.bytes.toNat ≤ r.last ∧
          find host reader after name = .ok (some ⟨info.dtype, info.shape,
            shard.dataOffset + info.offset, some (r.address (shard.dataOffset + info.offset)),
            info.bytes⟩)

section Main

variable {host : Host} {reader : CheckpointReader} {driver : Driver} {bits : Nat}

theorem registerTensors_ensures (hpage : host.systemPageSize.toNat = 2 ^ bits)
    (hfile : reader.InFile host) (names : List String) (before : Registered) :
    Ensures (registerTensors host driver reader names)
      (fun _ after => TensorsExact host reader names before after) (fun _ _ => True) before := by
  rw [registerTensors, ensures_bind, ensures_ofExcept]
  cases checkPageSize host.systemPageSize with
  | error e => exact trivial
  | ok _ =>
    rw [outcome_ok, ensures_bind, ensures_ofExcept]
    cases hrequested : names.mapM (requestedRange host reader) with
    | error e => exact trivial
    | ok requested =>
      rw [outcome_ok]
      apply (registerShards_registers ((host.iterate_perm _).nodup_iff.2 (List.nodup_dedup _))
        before).mono _ fun _ _ _ => trivial
      rintro _ after ⟨hregistered, hkept⟩
      have hpaths : ∀ path, path ∈ host.iterate (requested.reduceOption.map Prod.fst).dedup ↔
          ∃ range, (path, range) ∈ requested.reduceOption := by
        intro path
        rw [(host.iterate_perm _).mem_iff, List.mem_dedup, List.mem_map]
        constructor
        · rintro ⟨⟨_, range⟩, hentry, rfl⟩
          exact ⟨range, hentry⟩
        · rintro ⟨range, hentry⟩
          exact ⟨_, hentry, rfl⟩
      have hmerged : ∀ {name path shard info}, name ∈ names →
          Located host reader name path shard info → info.bytes ≠ 0 → _ :=
        fun {name path shard info} hname hlocated hbytes =>
        @merged_exact host.systemPageSize.toNat shard.file.data.length
          (rangesAt requested.reduceOption path)
          (after.registrations path) (Extent host reader names path)
          (by rw [hpage]; exact Nat.two_pow_pos bits)
          (by
            rintro _ _ ⟨_, _, _, info, hother, hbytes, rfl, rfl⟩
            obtain rfl := Except.ok.inj (hlocated.opened.symm.trans hother.opened)
            exact ⟨Nat.lt_add_of_pos_right (toNat_pos_of_ne hbytes), hfile hother⟩)
          (by
            intro range hrange
            obtain ⟨⟨key, _⟩, hentry, rfl⟩ := List.mem_map.1 hrange
            rw [List.mem_filter] at hentry
            obtain rfl : key = path := of_decide_eq_true hentry.2
            obtain ⟨other, hmem, _, info, hother, hsome, hpages⟩ :=
              requested_mem hrequested hentry.1
            obtain rfl := Except.ok.inj (hlocated.opened.symm.trans hother.opened)
            rw [hpage]
            exact ⟨_, _, ⟨other, hmem, shard, info, hother, hsome, rfl, rfl⟩,
              pageRange_pages hpage (hfile hother) hpages⟩)
          (by
            rintro _ _ ⟨other, hmem, _, info, hother, hsome, rfl, rfl⟩
            obtain rfl := Except.ok.inj (hlocated.opened.symm.trans hother.opened)
            obtain ⟨range, hentry, hpages⟩ := mem_requested hrequested hmem hother hsome
            rw [hpage]
            exact ⟨range, List.mem_map.2 ⟨(path, range),
              List.mem_filter.2 ⟨hentry, decide_eq_true rfl⟩, rfl⟩,
              pageRange_pages hpage (hfile hother) hpages⟩)
          (hregistered path ((hpaths path).2
            ((mem_requested hrequested hname hlocated hbytes).imp fun _ h => h.1)))
      constructor
      · rintro path ⟨_, _, name, hname, shard, info, hlocated, hbytes, _⟩
        exact ⟨shard, hlocated.opened, (hmerged hname hlocated hbytes).1⟩
      · intro path hnone
        apply hkept
        intro hpath
        obtain ⟨range, hentry⟩ := (hpaths path).1 hpath
        obtain ⟨name, hname, shard, info, hlocated, hbytes, _⟩ := requested_mem hrequested hentry
        exact hnone ⟨_, _, name, hname, shard, info, hlocated, hbytes, rfl, rfl⟩
      · intro name hname path hlookup
        obtain ⟨result, _, hresult⟩ := exists_of_mapM hrequested hname
        obtain ⟨shard, info, hlocated, _⟩ := requestedRange_ok hresult hlookup
        refine ⟨shard, info, hlocated, ?_⟩
        split
        · rename_i hempty
          exact find_empty hlocated hempty
        · rename_i hbytes
          obtain ⟨hexact, hcontains⟩ := hmerged hname hlocated hbytes
          exact find_mapped hlocated hbytes (hfile hlocated) hexact.inside
            (hcontains _ _ ⟨name, hname, shard, info, hlocated, hbytes, rfl, rfl⟩)

theorem counted_execute (hpage : host.systemPageSize.toNat = 2 ^ bits) (hfile : reader.InFile host)
    (calls : List (Driver × Call)) : Counted reader (execute host reader calls) := by
  have hrun : ∀ state, Counted reader state →
      Counted reader (calls.foldl (Call.run host reader) state) := by
    induction calls with
    | nil => exact fun _ h => h
    | cons call rest ih =>
      intro state h
      apply ih
      obtain ⟨driver, call⟩ := call
      cases call with
      | tensors names => exact (registerTensors_counted names).state h
      | range name offset bytes =>
        have hkeeps : Keeps (Counted reader)
            (registerTensorRange host driver reader name offset bytes) :=
          fun _ hstate => (registerTensorRange_ensures hpage hfile hstate).mono
            (fun _ _ hafter => hafter.2) fun _ _ hafter => hafter
        exact hkeeps.state h
      | unregister => exact h.unregister
  exact hrun _ counted_init

/-- After any run of calls, what is registered is the pages of what is asked for, and it is
found there. -/
theorem registrations_exact (hpage : host.systemPageSize.toNat = 2 ^ bits)
    (hfile : reader.InFile host) (calls : List (Driver × Call)) :
    (∀ driver names after,
      registerTensors host driver reader names (execute host reader calls) = (.ok (), after) →
        TensorsExact host reader names (execute host reader calls) after) ∧
    ∀ driver name offset bytes view after,
      registerTensorRange host driver reader name offset bytes (execute host reader calls) =
          (.ok view, after) →
        RangeExact host reader name offset bytes view after :=
  ⟨fun _ names _ hok => (registerTensors_ensures hpage hfile names _).of_ok hok,
    fun _ _ _ _ _ _ hok => ((registerTensorRange_ensures hpage hfile
      (counted_execute hpage hfile calls)).of_ok hok).1⟩

end Main

def smallShard : Shard where
  file := ⟨List.replicate 11 0, by decide⟩
  dataOffset := 2
  tensors := [("a", ⟨.kINT8, ⟨[3], 1⟩, 0, 3⟩), ("b", ⟨.kINT8, ⟨[5], 1⟩, 3, 5⟩),
    ("empty", ⟨.kINT8, ⟨[0], 1⟩, 8, 0⟩)]

def smallReader : CheckpointReader where
  mTensorShards := [("a", "shard"), ("b", "shard"), ("empty", "shard")]
  mExplicitTensors := []
  mRawShards := []
  mOpenShards := [("shard", smallShard)]

def smallHost : Host where
  parse := fun _ => .ok .null
  mapFile := fun path => .error path
  systemPageSize := 4
  iterate := id
  iterate_perm := fun paths => .refl paths

def smallDriver : Driver where
  hostRegister := fun _ offset _ => .ok (offset + 4096)
  hostUnregister := fun _ _ => true

theorem smallReader_inFile : smallReader.InFile smallHost := by
  intro name path shard info h
  have hlookup := h.lookup
  have hfound := h.found
  have hpath : path = "shard" := by
    obtain ⟨before, after, hsplit, _⟩ := List.lookup_eq_some_iff.1 hlookup
    have hmem : (name, path) ∈ smallReader.mTensorShards := by
      rw [hsplit]
      exact List.mem_append_right _ List.mem_cons_self
    simp [smallReader] at hmem
    tauto
  obtain rfl : smallShard = shard := by
    have hopened := h.opened
    rw [hpath] at hopened
    exact Except.ok.inj hopened
  have hinfo : smallShard.tensors.lookup name = some info := by
    unfold CheckpointReader.tensorInfo at hfound
    cases htensor : smallShard.tensors.lookup name with
    | none =>
      rw [htensor] at hfound
      cases hfound
    | some other =>
      rw [htensor] at hfound
      exact congrArg some (Except.ok.inj hfound)
  obtain ⟨before, after, hsplit, _⟩ := List.lookup_eq_some_iff.1 hinfo
  have hall : ∀ entry ∈ smallShard.tensors,
      smallShard.first entry.2 + entry.2.bytes.toNat ≤ smallShard.file.data.length := by decide
  exact hall (name, info) (by rw [hsplit]; exact List.mem_append_right _ List.mem_cons_self)

/-- Two tensors that share a page, one of them named twice, and an unknown name. -/
theorem registrations_exact_sharedPage :
    (registerTensors smallHost smallDriver smallReader ["b", "x", "a", "b"] {}).1 = .ok () ∧
      TensorsExact smallHost smallReader ["b", "x", "a", "b"] {}
        (registerTensors smallHost smallDriver smallReader ["b", "x", "a", "b"] {}).2 :=
  ⟨rfl, (@registrations_exact smallHost smallReader 2 rfl smallReader_inFile []).1 smallDriver
    ["b", "x", "a", "b"] _ rfl⟩

/-- An empty tensor is found, but at no address. -/
theorem emptyTensor_no_address :
    (registerTensors smallHost smallDriver smallReader ["empty"] {}).1 = .ok () ∧
      ¬∃ view address, find smallHost smallReader
          (registerTensors smallHost smallDriver smallReader ["empty"] {}).2 "empty" =
            .ok (some view) ∧ view.deviceData = some address := by
  refine ⟨rfl, ?_⟩
  rintro ⟨view, address, hfind, haddress⟩
  cases (Except.ok.inj hfind)
  cases haddress

end EdgeLLM.Ports.Checkpoint
