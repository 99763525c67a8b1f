import BlockScript.Proofs.Changes
import BlockScript.Proofs.Order
import Mathlib.Data.List.DropRight
import Mathlib.Data.List.Nodup

/-!
# The table of targets

The targets of a project keep their places in the table for ever. Behind them clones come and go:
one that is deleted leaves a gap, and the next one fills the latest gap. Everything that a machine
notes about the table (the order of making, the gaps, the number of clones) agrees with it.

* `Machine.Roster`: the table agrees with the notes, given the targets of the project and the
  identities of the clones;
* `Machine.Recast`: all that ever happens to the table;
* `Machine.Roster.recast`: whatever happens, the notes still agree;
* `Machine.History`, `Machine.Precedes`: who was made before whom;
* `World.roster_kept`: so it is in every state of a project at work.
-/

namespace BlockScript

namespace Machine

variable {H : Type}

/-! ## 1. The table and the notes -/

/-- The table of targets begins with those of the project, and the rest of it are clones and gaps.
    All that the machine notes about it is right. -/
structure Roster (originals : List Target) (clones : List TargetId) (m : Machine H) : Prop where
  original : ∀ (i : Nat) (t : Target), originals[i]? = some t →
    ∃ t', m.target? i = some t' ∧ Target.Remains t t'
  noClone : ∀ t ∈ originals, t.isClone = false
  id : ∀ id t, m.target? id = some t → t.id = id
  order : m.order = List.range originals.length ++ clones
  nodup : clones.Nodup
  mem_clones : ∀ id, id ∈ clones ↔ originals.length ≤ id ∧ ∃ t, m.target? id = some t
  isClone : ∀ id t, originals.length ≤ id → m.target? id = some t → t.isClone = true
  gaps : m.free.Nodup
  mem_free : ∀ id, id ∈ m.free ↔ id < m.targets.length ∧ m.target? id = none
  count : m.clones = clones.length
  limit : clones.length ≤ m.options.maxClones
  room : m.targets.length ≤ originals.length + m.options.maxClones

theorem lt_of_target? {m : Machine H} {id : TargetId} {t : Target} (h : m.target? id = some t) :
    id < m.targets.length := by
  rcases Nat.lt_or_ge id m.targets.length with hlt | hge
  · exact hlt
  · rw [target?_eq_none hge] at h
    cases h

/-- A gap is a place of the table without a target. -/
theorem gap_iff {m : Machine H} {id : TargetId} :
    id < m.targets.length ∧ m.target? id = none ↔ m.targets[id]? = some none := by
  unfold target?
  constructor
  · rintro ⟨hlt, hnone⟩
    rw [List.getElem?_eq_getElem hlt] at hnone ⊢
    exact congrArg some hnone
  · intro h
    exact ⟨(List.getElem?_eq_some_iff.mp h).1, by rw [h]; rfl⟩

namespace Roster

variable {originals : List Target} {clones : List TargetId} {m m' : Machine H}

/-- A target of the project is there, and it is no clone. -/
theorem original_lt (h : m.Roster originals clones) {i : Nat} (hi : i < originals.length) :
    ∃ t t', originals[i]? = some t ∧ m.target? i = some t' ∧ Target.Remains t t' ∧
      t'.isClone = false := by
  have hat : originals[i]? = some originals[i] := List.getElem?_eq_getElem hi
  obtain ⟨t', ht', hr⟩ := h.original i _ hat
  exact ⟨_, t', hat, ht', hr, hr.isClone.trans (h.noClone _ (List.getElem_mem hi))⟩

/-- A clone stands behind the targets of the project. -/
theorem le_of_isClone (h : m.Roster originals clones) {id : TargetId} {t : Target}
    (ht : m.target? id = some t) (hclone : t.isClone = true) : originals.length ≤ id := by
  by_contra hlt
  obtain ⟨_, t', -, ht', -, hno⟩ := h.original_lt (Nat.lt_of_not_le hlt)
  rw [ht] at ht'
  cases ht'
  rw [hclone] at hno
  cases hno

/-- **The order lists exactly the targets that live.** -/
theorem mem_order (h : m.Roster originals clones) {id : TargetId} :
    id ∈ m.order ↔ ∃ t, m.target? id = some t := by
  rw [h.order, List.mem_append, List.mem_range, h.mem_clones]
  constructor
  · rintro (hlt | ⟨-, ht⟩)
    · obtain ⟨_, t', -, ht', -⟩ := h.original_lt hlt
      exact ⟨t', ht'⟩
    · exact ht
  · intro ht
    rcases Nat.lt_or_ge id originals.length with hlt | hge
    · exact .inl hlt
    · exact .inr ⟨hge, ht⟩

theorem nodup_order (h : m.Roster originals clones) : m.order.Nodup := by
  rw [h.order]
  refine List.nodup_append.mpr ⟨List.nodup_range, h.nodup, ?_⟩
  rintro a ha b hb rfl
  have hlt := List.mem_range.mp ha
  have hge := ((h.mem_clones a).mp hb).1
  omega

/-- Each place of the table is a target's or a gap. -/
theorem length_targets (h : m.Roster originals clones) :
    m.targets.length = originals.length + clones.length + m.free.length := by
  have hnodup : (m.order ++ m.free).Nodup := by
    refine List.nodup_append.mpr ⟨h.nodup_order, h.gaps, ?_⟩
    rintro a ha b hb rfl
    obtain ⟨t, ht⟩ := h.mem_order.mp ha
    rw [((h.mem_free a).mp hb).2] at ht
    cases ht
  have hperm : (m.order ++ m.free).Perm (List.range m.targets.length) := by
    refine (List.perm_ext_iff_of_nodup hnodup List.nodup_range).mpr fun id => ?_
    rw [List.mem_append, List.mem_range, h.mem_order, h.mem_free]
    constructor
    · rintro (⟨t, ht⟩ | ⟨hlt, -⟩)
      · exact lt_of_target? ht
      · exact hlt
    · intro hlt
      cases ht : m.target? id with
      | some t => exact .inl ⟨t, rfl⟩
      | none => exact .inr ⟨hlt, rfl⟩
  have hlength := hperm.length_eq
  rw [List.length_append, List.length_range, h.order, List.length_append,
    List.length_range] at hlength
  exact hlength.symm

theorem length_le (h : m.Roster originals clones) : originals.length ≤ m.targets.length := by
  have hlength := h.length_targets
  omega

/-- **The clones that are counted are those that live.** -/
theorem countP_living (h : m.Roster originals clones) :
    m.living.countP Target.isClone = clones.length := by
  have horiginals : ((List.range originals.length).filterMap m.target?).countP Target.isClone = 0 := by
    refine List.countP_eq_zero.mpr fun t ht => ?_
    obtain ⟨i, hi, ht⟩ := List.mem_filterMap.mp ht
    obtain ⟨_, t', -, ht', -, hno⟩ := h.original_lt (List.mem_range.mp hi)
    cases ht'.symm.trans ht
    rw [hno]
    exact Bool.false_ne_true
  have hclones : (clones.filterMap m.target?).countP Target.isClone = clones.length := by
    have hall (ids : List TargetId) (hids : ∀ id ∈ ids, id ∈ clones) :
        (ids.filterMap m.target?).countP Target.isClone = ids.length := by
      induction ids with
      | nil => rfl
      | cons id rest ih =>
        obtain ⟨hid, hrest⟩ := List.forall_mem_cons.mp hids
        obtain ⟨hge, t, ht⟩ := (h.mem_clones id).mp hid
        rw [List.filterMap_cons, ht, List.countP_cons, ih hrest,
          if_pos (h.isClone id t hge ht), List.length_cons]
    exact hall clones fun _ hid => hid
  rw [living, h.order, List.filterMap_append, List.countP_append, horiginals, hclones,
    Nat.zero_add]

end Roster

theorem target?_of_originals {originals : List Target} {m : Machine H}
    (h : m.targets = originals.map some) (i : Nat) : m.target? i = originals[i]? := by
  unfold target?
  rw [h, List.getElem?_map]
  cases originals[i]? <;> rfl

/-- A table without clones and gaps. -/
theorem roster_of_originals {originals : List Target} {m : Machine H}
    (hat : ∀ (i : Nat) (t : Target), originals[i]? = some t → t.id = i ∧ t.isClone = false)
    (htargets : m.targets = originals.map some) (horder : m.order = originals.map (·.id))
    (hfree : m.free = []) (hclones : m.clones = 0) : m.Roster originals [] := by
  have htarget := target?_of_originals htargets
  have hlength : m.targets.length = originals.length := by rw [htargets, List.length_map]
  have hids : originals.map (·.id) = List.range originals.length := by
    refine List.ext_getElem? fun i => ?_
    rw [List.getElem?_map]
    rcases Nat.lt_or_ge i originals.length with hlt | hge
    · rw [List.getElem?_eq_getElem hlt, List.getElem?_range hlt, Option.map_some,
        (hat i _ (List.getElem?_eq_getElem hlt)).1]
    · rw [List.getElem?_eq_none hge, List.getElem?_eq_none]
      · rfl
      · rw [List.length_range]
        exact hge
  have hnone {id : TargetId} {t : Target} (hge : originals.length ≤ id) :
      m.target? id ≠ some t := by
    rw [htarget, List.getElem?_eq_none hge]
    exact nofun
  refine ⟨fun i t ht => ⟨t, (htarget i).trans ht, .refl t⟩, fun t ht => ?_, fun id t ht => ?_, ?_,
    List.nodup_nil, fun id => ?_, fun id t hge ht => absurd ht (hnone hge), ?_, fun id => ?_,
    hclones, Nat.zero_le _, ?_⟩
  · obtain ⟨i, hi⟩ := List.getElem?_of_mem ht
    exact (hat i t hi).2
  · rw [htarget] at ht
    exact (hat id t ht).1
  · rw [horder, hids, List.append_nil]
  · refine ⟨fun hmem => absurd hmem List.not_mem_nil, ?_⟩
    rintro ⟨hge, t, ht⟩
    exact absurd ht (hnone hge)
  · rw [hfree]
    exact List.nodup_nil
  · rw [hfree, hlength, htarget]
    refine ⟨fun hmem => absurd hmem List.not_mem_nil, ?_⟩
    rintro ⟨hlt, hnone⟩
    rw [List.getElem?_eq_getElem hlt] at hnone
    cases hnone
  · rw [hlength]
    exact Nat.le_add_right _ _

/-! ## 2. Nothing comes or goes -/

/-- No target comes or goes; each remains what it is. -/
structure Stays (m m' : Machine H) : Prop where
  order : m'.order = m.order
  free : m'.free = m.free
  clones : m'.clones = m.clones
  options : m'.options = m.options
  length : m'.targets.length = m.targets.length
  target : ∀ id, Option.Rel Target.Remains (m.target? id) (m'.target? id)

theorem stays_of_eq {m m' : Machine H} (htargets : m'.targets = m.targets)
    (horder : m'.order = m.order) (hfree : m'.free = m.free) (hclones : m'.clones = m.clones)
    (hoptions : m'.options = m.options) : m.Stays m' := by
  refine ⟨horder, hfree, hclones, hoptions, congrArg List.length htargets, fun id => ?_⟩
  have heq : m'.target? id = m.target? id := by
    unfold target?
    rw [htargets]
  rw [heq]
  cases m.target? id with
  | none => exact .none
  | some t => exact .some (.refl t)

theorem Aside.stays {m m' : Machine H} (h : m.Aside m') : m.Stays m' :=
  stays_of_eq h.targets h.order h.free h.clones h.options

namespace Stays

variable {m m' : Machine H}

theorem forth (h : m.Stays m') {id : TargetId} {t : Target} (ht : m.target? id = some t) :
    ∃ t', m'.target? id = some t' ∧ Target.Remains t t' := by
  have hrel := h.target id
  rw [ht] at hrel
  cases ht' : m'.target? id with
  | none =>
    rw [ht'] at hrel
    cases hrel
  | some t' =>
    rw [ht'] at hrel
    cases hrel with
    | some hr => exact ⟨t', rfl, hr⟩

theorem back (h : m.Stays m') {id : TargetId} {t' : Target} (ht' : m'.target? id = some t') :
    ∃ t, m.target? id = some t ∧ Target.Remains t t' := by
  have hrel := h.target id
  rw [ht'] at hrel
  cases ht : m.target? id with
  | none =>
    rw [ht] at hrel
    cases hrel
  | some t =>
    rw [ht] at hrel
    cases hrel with
    | some hr => exact ⟨t, rfl, hr⟩

theorem eq_none_iff (h : m.Stays m') (id : TargetId) :
    m'.target? id = none ↔ m.target? id = none := by
  have hrel := h.target id
  cases ht : m.target? id with
  | none =>
    rw [ht] at hrel
    cases ht' : m'.target? id with
    | none => simp
    | some t' =>
      rw [ht'] at hrel
      cases hrel
  | some t =>
    obtain ⟨t', ht', -⟩ := h.forth ht
    simp [ht']

end Stays

theorem stays_trigger (m : Machine H) (e : Event) : m.Stays (m.trigger e).2 := by
  rw [trigger_eq]
  exact stays_of_eq rfl rfl rfl rfl rfl

theorem stays_triggerFor (m : Machine H) (id : TargetId) (e : Event) :
    m.Stays (m.triggerFor id e).2 := by
  rw [triggerFor_eq]
  exact stays_of_eq rfl rfl rfl rfl rfl

/-- A target is changed, where identities are right. -/
theorem stays_mapTarget {m : Machine H} {t : Target} {f : Target → Target}
    (ht : m.target? t.id = some t) (hf : Target.Remains t (f t)) :
    m.Stays (m.mapTarget t.id f) := by
  refine ⟨rfl, rfl, rfl, rfl, List.length_modify .., fun id => ?_⟩
  rw [target?_mapTarget]
  split
  · rename_i heq
    rw [← heq, ht]
    exact .some hf
  · cases m.target? id with
    | none => exact .none
    | some t => exact .some (.refl t)

theorem Roster.stays {originals : List Target} {clones : List TargetId} {m m' : Machine H}
    (h : m.Roster originals clones) (hs : m.Stays m') : m'.Roster originals clones := by
  refine ⟨fun i t ht => ?_, h.noClone, fun id t' ht' => ?_, hs.order.trans h.order, h.nodup,
    fun id => ?_, fun id t' hge ht' => ?_, ?_, fun id => ?_, hs.clones.trans h.count, ?_, ?_⟩
  · obtain ⟨t₁, ht₁, hr₁⟩ := h.original i t ht
    obtain ⟨t₂, ht₂, hr₂⟩ := hs.forth ht₁
    exact ⟨t₂, ht₂, hr₁.trans hr₂⟩
  · obtain ⟨t, ht, hr⟩ := hs.back ht'
    exact hr.id.trans (h.id id t ht)
  · rw [h.mem_clones]
    refine and_congr_right fun _ => ⟨?_, ?_⟩
    · rintro ⟨t, ht⟩
      obtain ⟨t', ht', -⟩ := hs.forth ht
      exact ⟨t', ht'⟩
    · rintro ⟨t', ht'⟩
      obtain ⟨t, ht, -⟩ := hs.back ht'
      exact ⟨t, ht⟩
  · obtain ⟨t, ht, hr⟩ := hs.back ht'
    exact hr.isClone.trans (h.isClone id t hge ht)
  · rw [hs.free]
    exact h.gaps
  · rw [hs.free, h.mem_free, hs.length, hs.eq_none_iff]
  · rw [hs.options]
    exact h.limit
  · rw [hs.length, hs.options]
    exact h.room

/-! ## 3. A clone comes -/

/-- The identity of the next clone. -/
def nextId (m : Machine H) : TargetId := m.free.headD m.targets.length

/-- What a new clone does to the table. -/
structure Joins (m m' : Machine H) : Prop where
  below : m.clones < m.options.maxClones
  order : m'.order = m.order ++ [m.nextId]
  free : m'.free = m.free.tail
  clones : m'.clones = m.clones + 1
  options : m'.options = m.options
  clone : ∃ clone : Target, clone.id = m.nextId ∧ clone.isClone = true ∧
    m'.targets = if m.free.isEmpty then m.targets ++ [some clone]
      else m.targets.set m.nextId (some clone)

theorem isClone_clone? {t clone : Target} {id : TargetId} (h : t.clone? id = some clone) :
    clone.id = id ∧ clone.isClone = true := by
  obtain ⟨s, -, rfl⟩ := Option.map_eq_some_iff.mp h
  exact ⟨rfl, rfl⟩

/-- **Cloning changes nothing, or a clone joins the targets.** -/
theorem createClone_cases (m : Machine H) (of : TargetId) :
    m.createClone of = (none, m) ∨
      (m.createClone of).1 = some m.nextId ∧ m.Joins (m.createClone of).2 := by
  unfold createClone
  split
  · exact .inl rfl
  rename_i hbelow
  dsimp only
  split
  · exact .inl rfl
  · rename_i clone hclone
    obtain ⟨source, -, hcopy⟩ := Option.bind_eq_some_iff.mp hclone
    obtain ⟨hid, hisClone⟩ := isClone_clone? hcopy
    refine .inr ⟨rfl, ?_⟩
    rw [triggerFor_eq]
    exact ⟨Nat.lt_of_not_le hbelow, rfl, rfl, rfl, rfl, clone, hid, hisClone, rfl⟩

theorem createClone_none {m : Machine H} {of : TargetId} (h : (m.createClone of).1 = none) :
    (m.createClone of).2 = m := by
  rcases m.createClone_cases of with heq | ⟨hsome, -⟩
  · rw [heq]
  · rw [h] at hsome
    cases hsome

namespace Roster

variable {originals : List Target} {clones : List TargetId} {m m' : Machine H}

/-- The identity of the next clone is nobody's. -/
theorem target?_nextId (h : m.Roster originals clones) : m.target? m.nextId = none := by
  unfold nextId
  cases hfree : m.free with
  | nil => exact target?_eq_none (Nat.le_refl _)
  | cons id rest => exact ((h.mem_free id).mp (hfree ▸ List.mem_cons_self)).2

theorem le_nextId (h : m.Roster originals clones) : originals.length ≤ m.nextId := by
  by_contra hlt
  obtain ⟨_, t, -, ht, -⟩ := h.original_lt (Nat.lt_of_not_le hlt)
  rw [h.target?_nextId] at ht
  cases ht

theorem nextId_notMem (h : m.Roster originals clones) : m.nextId ∉ clones := by
  intro hmem
  obtain ⟨-, t, ht⟩ := (h.mem_clones _).mp hmem
  rw [h.target?_nextId] at ht
  cases ht

/-- The table after a clone has joined: one place is new or no longer a gap. -/
theorem joined (h : m.Roster originals clones) (hj : m.Joins m') :
    ∃ clone : Target, clone.id = m.nextId ∧ clone.isClone = true ∧
      (∀ id, m'.target? id = if id = m.nextId then some clone else m.target? id) ∧
      (∀ id, id ∈ m'.free ↔ id ∈ m.free ∧ id ≠ m.nextId) ∧
      (∀ id, id < m'.targets.length ↔ id < m.targets.length ∨ id = m.nextId) ∧
      m'.targets.length ≤ originals.length + m.options.maxClones := by
  obtain ⟨clone, hid, hclone, htargets⟩ := hj.clone
  have hfree' := hj.free
  have hlength := h.length_targets
  have hbelow := hj.below
  rw [h.count] at hbelow
  refine ⟨clone, hid, hclone, ?_⟩
  cases hfree : m.free with
  | nil =>
    have hnext : m.nextId = m.targets.length := by
      unfold nextId
      rw [hfree, List.headD_nil]
    rw [hfree, List.isEmpty_nil, if_pos rfl] at htargets
    rw [hfree, List.tail_nil] at hfree'
    rw [hfree, List.length_nil] at hlength
    refine ⟨fun id => ?_, fun id => ?_, fun id => ?_, ?_⟩
    · unfold target?
      rw [htargets, hnext]
      split
      · rename_i heq
        rw [heq, List.getElem?_concat_length]
        rfl
      · rename_i hne
        rcases Nat.lt_or_ge id m.targets.length with hlt | hge
        · rw [List.getElem?_append_left hlt]
        · rw [List.getElem?_eq_none hge, List.getElem?_eq_none]
          rw [List.length_append, List.length_singleton]
          exact Nat.lt_of_le_of_ne hge (Ne.symm hne)
    · simp [hfree']
    · rw [htargets, List.length_append, List.length_singleton, hnext]
      omega
    · rw [htargets, List.length_append, List.length_singleton]
      omega
  | cons next rest =>
    have hnext : m.nextId = next := by
      unfold nextId
      rw [hfree, List.headD_cons]
    have hlt : next < m.targets.length :=
      ((h.mem_free next).mp (hfree ▸ List.mem_cons_self)).1
    have hgaps := h.gaps
    rw [hfree] at hgaps
    obtain ⟨hnotin, -⟩ := List.nodup_cons.mp hgaps
    rw [hfree, List.isEmpty_cons, if_neg Bool.false_ne_true, hnext] at htargets
    rw [hfree, List.tail_cons] at hfree'
    rw [hnext]
    refine ⟨fun id => ?_, fun id => ?_, fun id => ?_, ?_⟩
    · unfold target?
      rw [htargets]
      split
      · rename_i heq
        rw [heq, List.getElem?_set_self hlt]
        rfl
      · rename_i hne
        rw [List.getElem?_set_ne (Ne.symm hne)]
    · rw [hfree', List.mem_cons]
      constructor
      · intro hmem
        exact ⟨.inr hmem, fun heq => hnotin (heq ▸ hmem)⟩
      · rintro ⟨heq | hmem, hne⟩
        · exact absurd heq hne
        · exact hmem
    · rw [htargets, List.length_set]
      refine ⟨.inl, ?_⟩
      rintro (hid | rfl)
      · exact hid
      · exact hlt
    · rw [htargets, List.length_set]
      exact h.room

/-- **A clone that joins is noted.** -/
theorem joins (h : m.Roster originals clones) (hj : m.Joins m') :
    m'.Roster originals (clones ++ [m.nextId]) := by
  obtain ⟨clone, hid, hclone, htarget, hfree, hlt, hroom⟩ := h.joined hj
  have hge := h.le_nextId
  have hnone := h.target?_nextId
  refine ⟨fun i t ht => ?_, h.noClone, fun id t ht => ?_, ?_, ?_, fun id => ?_,
    fun id t hle ht => ?_, ?_, fun id => ?_, ?_, ?_, ?_⟩
  · have hi : i < originals.length := (List.getElem?_eq_some_iff.mp ht).1
    rw [htarget, if_neg (Nat.ne_of_lt (Nat.lt_of_lt_of_le hi hge))]
    exact h.original i t ht
  · rw [htarget] at ht
    split at ht
    · rename_i heq
      cases ht
      rw [hid, heq]
    · exact h.id id t ht
  · rw [hj.order, h.order, List.append_assoc]
  · refine List.nodup_append.mpr ⟨h.nodup, List.nodup_singleton _, ?_⟩
    rintro a ha b hb rfl
    rw [List.mem_singleton.mp hb] at ha
    exact h.nextId_notMem ha
  · rw [List.mem_append, List.mem_singleton, h.mem_clones, htarget]
    by_cases heq : id = m.nextId
    · subst heq
      simp [hge]
    · simp [heq]
  · rw [htarget] at ht
    split at ht
    · cases ht
      exact hclone
    · exact h.isClone id t hle ht
  · rw [hj.free]
    exact h.gaps.sublist (List.tail_sublist _)
  · rw [hfree, h.mem_free, hlt, htarget]
    by_cases heq : id = m.nextId
    · simp [heq]
    · simp [heq]
  · rw [hj.clones, h.count, List.length_append, List.length_singleton]
  · have hbelow := hj.below
    rw [h.count] at hbelow
    rw [hj.options, List.length_append, List.length_singleton]
    exact hbelow
  · rw [hj.options]
    exact hroom

end Roster

/-! ## 4. Clones go -/

/-- **Deleting changes nothing, or one clone is gone.** -/
theorem deleteClone_cases (m : Machine H) (id : TargetId) :
    m.deleteClone id = (false, m) ∨
      ∃ t, m.target? id = some t ∧ t.isClone = true ∧
        m.deleteClone id = (true,
          { m.stopTarget id none with
            targets := m.targets.set id none
            free := id :: m.free
            order := m.order.filter (· != id)
            clones := m.clones - 1 }) := by
  unfold deleteClone
  split
  · exact .inl rfl
  · rename_i t ht
    split
    · exact .inl rfl
    · rename_i hclone
      exact .inr ⟨t, ht, by simpa using hclone, rfl⟩

theorem filter_range_of_le {n id : Nat} (h : n ≤ id) :
    (List.range n).filter (· != id) = List.range n := by
  refine List.filter_eq_self.mpr fun a ha => ?_
  have hlt := List.mem_range.mp ha
  exact bne_iff_ne.mpr (by omega)

namespace Roster

variable {originals : List Target} {clones : List TargetId} {m : Machine H}

/-- **A clone that is deleted is noted.** -/
theorem deleteClone (h : m.Roster originals clones) (id : TargetId) :
    ∃ left, (m.deleteClone id).2.Roster originals left := by
  rcases m.deleteClone_cases id with heq | ⟨t, ht, hclone, heq⟩
  · rw [heq]
    exact ⟨clones, h⟩
  rw [heq]
  have hge : originals.length ≤ id := h.le_of_isClone ht hclone
  have hmem : id ∈ clones := (h.mem_clones id).mpr ⟨hge, t, ht⟩
  have hlt : id < m.targets.length := lt_of_target? ht
  have hgone (j : TargetId) :
      Machine.target? { m.stopTarget id none with
        targets := m.targets.set id none
        free := id :: m.free
        order := m.order.filter (· != id)
        clones := m.clones - 1 } j = if j = id then none else m.target? j :=
    target?_of_set_none rfl j
  refine ⟨clones.erase id, fun i t' ht' => ?_, h.noClone, fun j t' ht' => ?_, ?_,
    h.nodup.erase id, fun j => ?_, fun j t' hle ht' => ?_, ?_, fun j => ?_, ?_, ?_, ?_⟩
  · have hi : i < originals.length := (List.getElem?_eq_some_iff.mp ht').1
    rw [hgone, if_neg (Nat.ne_of_lt (Nat.lt_of_lt_of_le hi hge))]
    exact h.original i t' ht'
  · rw [hgone] at ht'
    split at ht'
    · cases ht'
    · exact h.id j t' ht'
  · show m.order.filter (· != id) = _
    rw [h.order, List.filter_append, filter_range_of_le hge, h.nodup.erase_eq_filter]
  · rw [h.nodup.mem_erase_iff, h.mem_clones, hgone]
    by_cases hj : j = id
    · simp [hj]
    · simp [hj]
  · rw [hgone] at ht'
    split at ht'
    · cases ht'
    · exact h.isClone j t' hle ht'
  · refine List.nodup_cons.mpr ⟨fun hfree => ?_, h.gaps⟩
    rw [((h.mem_free id).mp hfree).2] at ht
    cases ht
  · show j ∈ id :: m.free ↔ j < (m.targets.set id none).length ∧ _
    rw [hgone, List.mem_cons, List.length_set, h.mem_free]
    by_cases hj : j = id
    · simp [hj, hlt]
    · simp [hj]
  · show m.clones - 1 = _
    rw [h.count, List.length_erase_of_mem hmem]
  · have hle : (clones.erase id).length ≤ clones.length := (List.erase_sublist).length_le
    exact Nat.le_trans hle h.limit
  · show (m.targets.set id none).length ≤ _
    rw [List.length_set]
    exact h.room

variable [Host H]

/-- Without the clones the table is as long as the project has targets. -/
theorem targets_stopAll (h : m.Roster originals clones) :
    m.stopAll.targets = m.targets.take originals.length := by
  let keep : Option Target → Option Target := fun t => t.filter fun t => !t.isClone
  have hsplit : m.targets.map keep =
      m.targets.take originals.length ++ (m.targets.drop originals.length).map keep := by
    conv_lhs => rw [← List.take_append_drop originals.length m.targets]
    rw [List.map_append]
    congr 1
    refine (List.map_congr_left fun t ht => ?_).trans (List.map_id _)
    obtain ⟨i, hi, rfl⟩ := List.mem_take_iff_getElem.mp ht
    obtain ⟨_, t', -, ht', -, hno⟩ := h.original_lt (i := i) (by omega)
    unfold target? at ht'
    rw [List.getElem?_eq_getElem (by omega)] at ht'
    rw [show m.targets[i] = some t' from ht']
    simp [keep, Option.filter, hno]
  -- what stands behind the targets of the project are gaps then
  have hgaps : ∀ t ∈ ((m.targets.drop originals.length).map keep).reverse,
      Option.isNone t = true := by
    intro t ht
    obtain ⟨t, hmem, rfl⟩ := List.mem_map.mp (List.mem_reverse.mp ht)
    obtain ⟨i, hi⟩ := List.getElem?_of_mem hmem
    rw [List.getElem?_drop] at hi
    cases t with
    | none => rfl
    | some t =>
      have hlives : m.target? (originals.length + i) = some t := by
        unfold target?
        rw [hi]
        rfl
      have hclone := h.isClone _ t (by omega) hlives
      simp [keep, Option.filter, hclone]
  have hkept : ((m.targets.take originals.length).reverse.dropWhile Option.isNone) =
      (m.targets.take originals.length).reverse := by
    cases hrev : (m.targets.take originals.length).reverse with
    | nil => rfl
    | cons t rest =>
      have hmem : t ∈ m.targets.take originals.length :=
        List.mem_reverse.mp (hrev ▸ List.mem_cons_self)
      obtain ⟨i, hi, rfl⟩ := List.mem_take_iff_getElem.mp hmem
      obtain ⟨_, t', -, ht', -⟩ := h.original_lt (i := i) (by omega)
      unfold target? at ht'
      rw [List.getElem?_eq_getElem (by omega)] at ht'
      rw [show m.targets[i] = some t' from ht']
      rfl
  show ((m.targets.map keep).reverse.dropWhile Option.isNone).reverse = _
  rw [hsplit, List.reverse_append, List.dropWhile_append_of_pos hgaps, hkept,
    List.reverse_reverse]

/-- **Where everything stops, the targets of the project are left**, in their order. -/
theorem order_stopAll (h : m.Roster originals clones) :
    m.stopAll.order = List.range originals.length := by
  have htarget (id : TargetId) : m.stopAll.targets[id]?.join = m.stopAll.target? id := rfl
  show m.order.filter (fun id => m.stopAll.targets[id]?.join.isSome) = _
  rw [h.order, List.filter_append]
  have hkept : (List.range originals.length).filter
      (fun id => m.stopAll.targets[id]?.join.isSome) = List.range originals.length := by
    refine List.filter_eq_self.mpr fun id hid => ?_
    obtain ⟨_, t, -, ht, -, hno⟩ := h.original_lt (List.mem_range.mp hid)
    rw [htarget, target?_stopAll, ht]
    simp [Option.filter, hno]
  have hgone : clones.filter (fun id => m.stopAll.targets[id]?.join.isSome) = [] := by
    refine List.filter_eq_nil_iff.mpr fun id hid => ?_
    obtain ⟨hge, t, ht⟩ := (h.mem_clones id).mp hid
    rw [htarget, target?_stopAll, ht]
    simp [Option.filter, h.isClone id t hge ht]
  rw [hkept, hgone, List.append_nil]

theorem stopAll (h : m.Roster originals clones) : m.stopAll.Roster originals [] := by
  have hlength : m.stopAll.targets.length = originals.length := by
    rw [h.targets_stopAll, List.length_take]
    exact Nat.min_eq_left h.length_le
  have hback {id : TargetId} {t : Target} (ht : m.stopAll.target? id = some t) :
      m.target? id = some t ∧ t.isClone = false := by
    rw [target?_stopAll] at ht
    obtain ⟨hlives, hno⟩ := Option.filter_eq_some_iff.mp ht
    exact ⟨hlives, by simpa using hno⟩
  refine ⟨fun i t ht => ?_, h.noClone, fun id t ht => h.id id t (hback ht).1, ?_, List.nodup_nil,
    fun id => ?_, fun id t hge ht => ?_, List.nodup_nil, fun id => ?_, rfl, Nat.zero_le _, ?_⟩
  · have hi : i < originals.length := (List.getElem?_eq_some_iff.mp ht).1
    obtain ⟨t₀, t', ht₀, ht', hr, hno⟩ := h.original_lt hi
    cases ht.symm.trans ht₀
    refine ⟨t', ?_, hr⟩
    rw [target?_stopAll, ht']
    simp [Option.filter, hno]
  · rw [h.order_stopAll, List.append_nil]
  · refine ⟨fun hmem => absurd hmem List.not_mem_nil, ?_⟩
    rintro ⟨hge, t, ht⟩
    obtain ⟨hlives, hno⟩ := hback ht
    rw [h.isClone id t hge hlives] at hno
    cases hno
  · obtain ⟨hlives, hno⟩ := hback ht
    rw [h.isClone id t hge hlives] at hno
    cases hno
  · refine ⟨fun hmem => absurd hmem List.not_mem_nil, ?_⟩
    rintro ⟨hlt, hnone⟩
    obtain ⟨_, t, -, ht, -, hno⟩ := h.original_lt (hlength ▸ hlt)
    rw [target?_stopAll, ht] at hnone
    simp [Option.filter, hno] at hnone
  · rw [hlength]
    exact Nat.le_add_right _ _

end Roster

/-! ## 5. Ages -/

/-- For how long a target has been there without a break. -/
def age (history : List (Machine H)) (id : TargetId) : Nat :=
  (history.takeWhile fun m => (m.target? id).isSome).length

/-- One target was made before another. Those of the project were made together, in the order of
    their places. -/
def Precedes (originals : Nat) (history : List (Machine H)) (a b : TargetId) : Prop :=
  age history b < age history a ∨ a < b ∧ b < originals

theorem age_of_lives {m : Machine H} {past : List (Machine H)} {id : TargetId} {t : Target}
    (h : m.target? id = some t) : age (m :: past) id = age past id + 1 := by
  unfold age
  rw [List.takeWhile_cons, h, Option.isSome_some, if_pos rfl, List.length_cons]

theorem age_of_gone {m : Machine H} {past : List (Machine H)} {id : TargetId}
    (h : m.target? id = none) : age (m :: past) id = 0 := by
  unfold age
  rw [List.takeWhile_cons, h]
  rfl

/-! ## 6. Whatever happens -/

/-- The table and the notes agree, whatever clones there are. -/
def Rostered (originals : List Target) (m : Machine H) : Prop :=
  ∃ clones, m.Roster originals clones

variable [Host H]

/-- All that ever happens to the table of targets. -/
inductive Recast : Machine H → Machine H → Prop
  | stays {m m' : Machine H} (h : m.Stays m') : Recast m m'
  | create (m : Machine H) (of : TargetId) : Recast m (m.createClone of).2
  | delete (m : Machine H) (id : TargetId) : Recast m (m.deleteClone id).2
  | clear (m : Machine H) : Recast m m.stopAll

theorem Recast.options {m m' : Machine H} (h : Recast m m') : m'.options = m.options := by
  cases h with
  | stays h => exact h.options
  | create of =>
    rcases m.createClone_cases of with heq | ⟨-, hj⟩
    · rw [heq]
    · exact hj.options
  | delete id =>
    rcases m.deleteClone_cases id with heq | ⟨t, -, -, heq⟩
    · rw [heq]
    · rw [heq]
      rfl
  | clear => rfl

theorem Recast.options_trans {m m' : Machine H} (h : Relation.ReflTransGen Recast m m') :
    m'.options = m.options := by
  induction h with
  | refl => rfl
  | tail _ hstep ih => exact hstep.options.trans ih

namespace Rostered

variable {originals : List Target} {m m' : Machine H}

/-- **Whatever happens to the table, the notes still agree with it.** -/
theorem recast (h : m.Rostered originals) (hr : Recast m m') : m'.Rostered originals := by
  obtain ⟨clones, h⟩ := h
  cases hr with
  | stays hs => exact ⟨clones, h.stays hs⟩
  | create of =>
    rcases m.createClone_cases of with heq | ⟨-, hj⟩
    · rw [heq]
      exact ⟨clones, h⟩
    · exact ⟨_, h.joins hj⟩
  | delete id => exact h.deleteClone id
  | clear => exact ⟨[], h.stopAll⟩

theorem recasts (h : m.Rostered originals) (hr : Relation.ReflTransGen Recast m m') :
    m'.Rostered originals := by
  induction hr with
  | refl => exact h
  | tail _ hstep ih => exact ih.recast hstep

/-- A change that a thread makes is one of those things. -/
theorem change (h : m.Rostered originals) {own : TargetId} {seat : Nat} {s : Stmt}
    (hc : Change own seat s m m') : Recast m m' := by
  obtain ⟨clones, h⟩ := h
  cases hc with
  | aside ha => exact .stays ha.stays
  | @modify _ _ id t f hid ht hf =>
    refine .stays (stays_mapTarget ?_ hf)
    rw [h.id id t ht]
    exact ht
  | trigger _ _ e => exact .stays (m.stays_trigger e)
  | createClone _ of => exact .create m of
  | deleteClone => exact .delete m own
  | stopOthers => exact .stays (stays_of_eq rfl rfl rfl rfl rfl)
  | stopAll => exact .clear m

theorem alters (h : m.Rostered originals) {own : TargetId} {seat : Nat} {s : Stmt}
    (ha : Alters own seat s m m') : Relation.ReflTransGen Recast m m' := by
  induction ha with
  | refl => exact .refl
  | tail _ hc ih => exact ih.tail ((h.recasts ih).change hc)

/-- What is asked for from outside is made of them as well. -/
theorem request (h : m.Rostered originals) {r : Request H} {f : Machine H → Machine H}
    (hr : r.change? = some f) : Relation.ReflTransGen Recast m (f m) := by
  cases r <;> cases hr
  case greenFlag.refl =>
    have hstop : Relation.ReflTransGen Recast m m.stopAll := .single (.clear m)
    have hreset : Recast m.stopAll m.stopAll.resetTimer :=
      .stays (stays_of_eq rfl rfl rfl rfl rfl)
    exact (hstop.tail hreset).tail (.stays (stays_trigger _ _))
  case trigger.refl e => exact .single (.stays (m.stays_trigger e))
  case triggerFor.refl id e => exact .single (.stays (m.stays_triggerFor id e))
  case switchBackdrop.refl v =>
    have hswitch : Alters 0 0 (.switchBackdrop (.const v) false) m (m.switchBackdrop v).2 :=
      alters_switchBackdrop rfl m v
    exact h.alters hswitch
  case createClone.refl of => exact .single (.create m of)
  case deleteClone.refl id => exact .single (.delete m id)
  case stopAll.refl => exact .single (.clear m)
  case stopTarget.refl | halt.refl | resetTimer.refl | attend.refl =>
    exact .single (.stays (stays_of_eq rfl rfl rfl rfl rfl))

end Rostered

/-! ## 7. The order of making -/

/-- The machines since the project was loaded, the latest first: one thing happened between each
    two of them. -/
inductive History (start : Machine H) : List (Machine H) → Prop
  | start : History start [start]
  | next {m m' : Machine H} {past : List (Machine H)} (h : History start (m :: past))
      (hr : Recast m m') : History start (m' :: m :: past)

theorem exists_history {m m' m₀ : Machine H} {past : List (Machine H)}
    (h : History m₀ (m :: past)) (hr : Relation.ReflTransGen Recast m m') :
    ∃ past', History m₀ (m' :: past') := by
  induction hr with
  | refl => exact ⟨past, h⟩
  | tail _ hstep ih =>
    obtain ⟨past', h'⟩ := ih
    exact ⟨_, .next h' hstep⟩

/-- What happens to the order: some are left out, and at most one is added at the end, who was not
    there before. -/
theorem Rostered.order_recast {originals : List Target} {m m' : Machine H}
    (h : m.Rostered originals) (hr : Recast m m') :
    ∃ kept added, m'.order = kept ++ added ∧ kept.Sublist m.order ∧ added.length ≤ 1 ∧
      ∀ id ∈ added, m.target? id = none := by
  obtain ⟨clones, h⟩ := h
  have hleft {order : List TargetId} (hsub : order.Sublist m.order) :
      ∃ kept added, order = kept ++ added ∧ kept.Sublist m.order ∧ added.length ≤ 1 ∧
        ∀ id ∈ added, m.target? id = none :=
    ⟨order, [], (List.append_nil _).symm, hsub, Nat.zero_le _, fun _ hid => by cases hid⟩
  cases hr with
  | stays hs =>
    rw [hs.order]
    exact hleft (.refl _)
  | create of =>
    rcases m.createClone_cases of with heq | ⟨-, hj⟩
    · rw [heq]
      exact hleft (.refl _)
    · refine ⟨m.order, [m.nextId], hj.order, .refl _, Nat.le_refl _, fun id hid => ?_⟩
      rw [List.mem_singleton.mp hid]
      exact h.target?_nextId
  | delete id =>
    rcases m.deleteClone_cases id with heq | ⟨t, -, -, heq⟩
    · rw [heq]
      exact hleft (.refl _)
    · rw [heq]
      exact hleft List.filter_sublist
  | clear => exact hleft List.filter_sublist

/-- **The order is the order of making**: one step of a history. -/
theorem Rostered.pairwise_recast {originals : List Target} {m m' : Machine H}
    {past : List (Machine H)} (h : m.Rostered originals) (hr : Recast m m')
    (hp : m.order.Pairwise (Precedes originals.length (m :: past))) :
    m'.order.Pairwise (Precedes originals.length (m' :: m :: past)) := by
  obtain ⟨clones', h'⟩ := h.recast hr
  obtain ⟨kept, added, horder, hsub, hone, hnew⟩ := h.order_recast hr
  obtain ⟨clones, h⟩ := h
  have hlives (id : TargetId) (hid : id ∈ kept ++ added) :
      age (m' :: m :: past) id = age (m :: past) id + 1 := by
    rw [← horder] at hid
    obtain ⟨t, ht⟩ := h'.mem_order.mp hid
    exact age_of_lives ht
  rw [horder]
  refine List.pairwise_append.mpr ⟨?_, ?_, fun a ha b hb => ?_⟩
  · refine (hp.sublist hsub).imp_of_mem fun {a b} ha hb hab => ?_
    rcases hab with hage | hplace
    · refine .inl ?_
      rw [hlives a (List.mem_append_left _ ha), hlives b (List.mem_append_left _ hb)]
      omega
    · exact .inr hplace
  · match added, hone with
    | [], _ => exact .nil
    | [id], _ => exact List.pairwise_singleton _ _
  · -- who is added was not there before, and everyone else was
    obtain ⟨t, ht⟩ := h.mem_order.mp (hsub.subset ha)
    refine .inl ?_
    rw [hlives a (List.mem_append_left _ ha), hlives b (List.mem_append_right _ hb),
      age_of_gone (hnew b hb), age_of_lives ht]
    omega

/-- **In every history the order is the order of making.** -/
theorem History.pairwise_order {originals : List Target} {start m : Machine H}
    {past : List (Machine H)} (h : History start (m :: past)) (hs : start.Roster originals []) :
    m.Rostered originals ∧ m.order.Pairwise (Precedes originals.length (m :: past)) := by
  generalize hhistory : m :: past = history at h
  induction h generalizing m past with
  | start =>
    cases hhistory
    refine ⟨⟨[], hs⟩, ?_⟩
    rw [hs.order, List.append_nil]
    refine List.pairwise_lt_range.imp_of_mem fun {a b} _ hb hab => ?_
    exact .inr ⟨hab, List.mem_range.mp hb⟩
  | next hpast hr ih =>
    cases hhistory
    obtain ⟨hm, hp⟩ := ih rfl
    exact ⟨hm.recast hr, hm.pairwise_recast hr hp⟩

end Machine

/-! ## 8. A project at work -/

namespace World

open Machine (Recast Rostered History Precedes)

variable {H : Type} [Host H] {R : Rules}

/-- A turn that fails has changed no more than a statement may. -/
theorem Fails.alters {t t' : Turn H} {code : List Stmt} (h : Fails R t code t') :
    ∃ s, Act.Alters s t t' := by
  cases h with
  | @fault s _ _ rest e h => exact ⟨s, (Act.exec_alters s).of_error h⟩
  | @stray s _ _ rest k h => exact ⟨s, (Act.exec_alters s).of_ok h⟩
  | exhausted => exact ⟨.return, .refl t⟩

/-- **A step does to the table only what can happen to it.** -/
theorem Step.recasts {originals : List Target} {w w' : World H} (h : Step R w w')
    (hw : w.machine.Rostered originals) :
    Relation.ReflTransGen Recast w.machine w'.machine := by
  have hstays {m m' : Machine H} (htargets : m'.targets = m.targets) (horder : m'.order = m.order)
      (hfree : m'.free = m.free) (hclones : m'.clones = m.clones)
      (hoptions : m'.options = m.options) : Recast m m' :=
    .stays (Machine.stays_of_eq htargets horder hfree hclones hoptions)
  have hexec {s : Stmt} {t t' : Turn H} {c : Control} (h : Act.exec s t = .ok c t')
      (hm : t.machine.Rostered originals) : Relation.ReflTransGen Recast t.machine t'.machine :=
    hm.alters ((Act.exec_alters s).of_ok h).machine
  cases h with
  | request hr m => exact hw.request hr
  | setClock | start | lapse | enter | finish | again | close =>
    exact .single (hstays rfl rfl rfl rfl rfl)
  | refuse => exact .single (hstays rfl rfl rfl rfl rfl)
  | skip => exact .refl
  | onward h => exact hexec h hw
  | jump h => exact hexec h hw
  | leave h => exact (hexec h hw).tail (hstays rfl rfl rfl rfl rfl)
  | fail hfails =>
    obtain ⟨s, halters⟩ := hfails.alters
    exact (hw.alters halters.machine).tail (hstays rfl rfl rfl rfl rfl)

theorem Reaches.recasts {originals : List Target} {w w' : World H} (h : Reaches R w w')
    (hw : w.machine.Rostered originals) :
    Relation.ReflTransGen Recast w.machine w'.machine := by
  induction h with
  | refl => exact .refl
  | tail _ hstep ih => exact ih.trans (hstep.recasts (hw.recasts ih))

end World

/-- A machine that is loaded has the targets of the project and no clone. -/
theorem Machine.roster_load {H : Type} {p : Project} {programs : List Program} {o : Options}
    {host : H} {s : Surroundings} {m : Machine H}
    (h : Machine.load p programs o host s = .ok m) :
    ∃ originals, originals.length = p.targets.length ∧ m.Roster originals [] ∧
      (∀ i : Nat, m.target? i = originals[i]?) ∧ m.options = o := by
  unfold Machine.load at h
  obtain ⟨options, hvalid, h⟩ := except_bind_eq_ok.mp h
  have hoptions : options = o := by
    unfold Options.validate at hvalid
    split at hvalid
    · cases hvalid
    · cases hvalid
      rfl
  dsimp only at h
  split at h
  · obtain ⟨_, hthrow, -⟩ := except_bind_eq_ok.mp h
    cases hthrow
  rename_i hcount
  split at h
  · cases h
  cases h
  have hlength : programs.length = p.targets.length := not_not.mp hcount
  let originals := (p.targets.zip programs).zipIdx.map fun x => Target.ofData x.2 x.1.1 x.1.2
  have hat (i : Nat) (t : Target) (ht : originals[i]? = some t) :
      t.id = i ∧ t.isClone = false := by
    unfold originals at ht
    rw [List.getElem?_map, List.getElem?_zipIdx, Option.map_map] at ht
    obtain ⟨⟨data, program⟩, -, rfl⟩ := Option.map_eq_some_iff.mp ht
    refine ⟨Nat.zero_add i, ?_⟩
    show (Target.ofData _ data program).isClone = false
    unfold Target.isClone Target.sprite? Target.ofData Target.bodyOf
    cases data.isStage <;> rfl
  have hn : originals.length = p.targets.length := by
    simp [originals, hlength]
  exact ⟨originals, hn, roster_of_originals hat rfl rfl rfl rfl, target?_of_originals rfl, hoptions⟩

/-- **The table of targets in every state**, whatever the programs are and whatever is asked for,
    also after a fault and in the middle of a turn. The targets of the project keep their places and
    are no clones; a target has its place as its identity. The order lists exactly those that live,
    each once, in the order of their making: this is so in every history of the table that leads
    there, and there is one. The gaps are listed, each once. The clones that are counted are those
    that live; there are no more than the options allow, and the table has no more room than for
    them. Where everything stops, just the targets of the project are left. A clone that is not
    made, or not deleted, changes nothing. -/
theorem World.roster_kept {H : Type} [Host H] {p : Project} {programs : List Program} {o : Options}
    {host : H} {s : Surroundings} {m : Machine H} (h : Machine.load p programs o host s = .ok m)
    {w : World H} (hw : World.Arises m w) :
    (∀ i < p.targets.length, ∃ t t', m.target? i = some t ∧ w.machine.target? i = some t' ∧
      Target.Remains t t' ∧ t'.isClone = false) ∧
    (∀ id t, w.machine.target? id = some t → t.id = id) ∧
    (w.machine.order.Nodup ∧ ∀ id, id ∈ w.machine.order ↔ ∃ t, w.machine.target? id = some t) ∧
    ((∃ past, Machine.History m (w.machine :: past)) ∧
      ∀ past, Machine.History m (w.machine :: past) →
        w.machine.order.Pairwise (Machine.Precedes p.targets.length (w.machine :: past))) ∧
    (w.machine.free.Nodup ∧ ∀ id, id ∈ w.machine.free ↔ w.machine.targets[id]? = some none) ∧
    (w.machine.clones = w.machine.living.countP Target.isClone ∧
      w.machine.clones ≤ o.maxClones ∧
      w.machine.targets.length ≤ p.targets.length + o.maxClones) ∧
    (w.machine.stopAll.targets = w.machine.targets.take p.targets.length ∧
      w.machine.stopAll.order = List.range p.targets.length ∧
      w.machine.stopAll.free = [] ∧ w.machine.stopAll.clones = 0) ∧
    (∀ of, (w.machine.createClone of).1 = none → (w.machine.createClone of).2 = w.machine) ∧
    ∀ id, (w.machine.deleteClone id).1 = false → (w.machine.deleteClone id).2 = w.machine := by
  obtain ⟨originals, hlength, hstart, htarget, hoptions⟩ := Machine.roster_load h
  have hrecasts : Relation.ReflTransGen Machine.Recast m w.machine :=
    hw.recasts ⟨[], hstart⟩
  obtain ⟨clones, hroster⟩ := Machine.Rostered.recasts ⟨[], hstart⟩ hrecasts
  have hsame : w.machine.options = o := (Machine.Recast.options_trans hrecasts).trans hoptions
  have hlimit := hroster.limit
  have hroom := hroster.room
  rw [hsame] at hlimit hroom
  rw [← hlength]
  refine ⟨fun i hi => ?_, hroster.id, ⟨hroster.nodup_order, fun _ => hroster.mem_order⟩,
    ⟨Machine.exists_history .start hrecasts, fun past hpast => ?_⟩,
    ⟨hroster.gaps, fun id => ?_⟩, ⟨?_, ?_, hroom⟩,
    ⟨hroster.targets_stopAll, hroster.order_stopAll, rfl, rfl⟩,
    fun _ => Machine.createClone_none, fun _ => Machine.deleteClone_false⟩
  · obtain ⟨t, t', ht, ht', hr, hno⟩ := hroster.original_lt hi
    exact ⟨t, t', (htarget i).trans ht, ht', hr, hno⟩
  · exact (hpast.pairwise_order hstart).2
  · rw [hroster.mem_free, Machine.gap_iff]
  · rw [hroster.countP_living, hroster.count]
  · rw [hroster.count]
    exact hlimit

/-- Three clones, of which the second is deleted and replaced, and then the first is deleted. -/
def recastingRequests : List (Request Headless) :=
  [.createClone 1, .createClone 1, .createClone 1, .deleteClone 3, .createClone 1, .deleteClone 2]

/-- The machine when all is done that is asked, if nothing fails. -/
def Request.outcome? {H : Type} [Host H] (requests : List (Request H)) (m : Machine H) :
    Option (Machine H) :=
  match performAll requests m with
  | .ok _ m' => some m'
  | .error _ _ => none

theorem World.reaches_outcome? {H : Type} [Host H] {requests : List (Request H)}
    {m m' : Machine H} (h : Request.outcome? requests m = some m') :
    World.Arises m (.rest m') := by
  have hreaches := World.reaches_performAll requests m
  unfold Request.outcome? at h
  cases hplay : Request.performAll requests m with
  | error e m' =>
    rw [hplay] at h
    cases h
  | ok u m' =>
    rw [hplay] at h hreaches
    cases h
    exact hreaches

theorem World.recasting_roster :
    ∃ programs, ∃ m m' : Machine Headless,
      Machine.load cloningProject programs {} ({} : Headless) .still = .ok m ∧
      World.Arises m (.rest m') ∧
      (m'.order, m'.free, m'.clones) = ([0, 1, 4, 3], [2], 2) ∧
      (∃ past, Machine.History m (m' :: past) ∧
        m'.order.Pairwise (Machine.Precedes 2 (m' :: past))) ∧
      m'.living.countP Target.isClone = 2 ∧ m'.stopAll.order = [0, 1] := by
  have hrun : ((Player.loadProject cloningProject {} ({} : Headless) .still).toOption.bind
      (Request.outcome? recastingRequests)).map (fun m => (m.order, m.free, m.clones)) =
        some ([0, 1, 4, 3], [2], 2) := by
    decide +kernel
  obtain ⟨m', hrun, hnotes⟩ := Option.map_eq_some_iff.mp hrun
  obtain ⟨m, hm, houtcome⟩ := Option.bind_eq_some_iff.mp hrun
  have hload := eq_ok_of_toOption hm
  obtain ⟨programs, -, hload⟩ := except_bind_eq_ok.mp hload
  have hreaches := World.reaches_outcome? houtcome
  obtain ⟨-, -, -, ⟨⟨past, hpast⟩, horder⟩, -, ⟨hcount, -⟩, ⟨-, hstop, -⟩, -⟩ :=
    World.roster_kept hload hreaches
  have htwo : m'.clones = 2 := congrArg (fun notes => notes.2.2) hnotes
  exact ⟨programs, m, m', hload, hreaches, hnotes, ⟨past, hpast, horder past hpast⟩,
    hcount.symm.trans htwo, hstop⟩

end BlockScript
