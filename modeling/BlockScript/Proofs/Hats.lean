import BlockScript.Compile.Target
import BlockScript.Proofs.Links

/-!
# Hats and procedures

The blocks of a target that start a stack have ids of their own, in order. Those that define a
procedure are numbered, and under each signature the index has the number of its procedure.

* `nodup_ids`: no two hats have one id;
* `Defined`: what the list of procedures is like, kept by each hat (`Defined.add`);
* `get?_index`: the index maps each signature to its own procedure, and nothing else;
* `perm_procedureIds`: each procedure is started by one hat.
-/

namespace BlockScript

namespace Table

variable {α : Type}

/-- A table that is filled from entries under different names has these entries, and under other
    names what it had before. -/
theorem get?_foldl_put {l : List (String × α)} (hl : (l.map (·.1)).Nodup) {t : Table α}
    {name : String} {a : α} :
    (l.foldl (fun t e => t.put e.1 e.2) t).get? name = some a ↔
      (name, a) ∈ l ∨ name ∉ l.map (·.1) ∧ t.get? name = some a := by
  induction l generalizing t with
  | nil => simp
  | cons e rest ih =>
    obtain ⟨k, b⟩ := e
    rw [List.map_cons, List.nodup_cons] at hl
    obtain ⟨hk, hrest⟩ := hl
    rw [List.foldl_cons, ih hrest]
    by_cases hname : name = k
    · subst hname
      have hnot : (name, a) ∉ rest := fun h => hk (List.mem_map.mpr ⟨_, h, rfl⟩)
      rw [get?_put_self]
      constructor
      · rintro (h | ⟨-, h⟩)
        · exact absurd h hnot
        · cases h
          exact .inl List.mem_cons_self
      · rintro (h | ⟨h, -⟩)
        · rcases List.mem_cons.mp h with h | h
          · cases h
            exact .inr ⟨hk, rfl⟩
          · exact absurd h hnot
        · exact absurd List.mem_cons_self h
    · rw [get?_put_of_ne hname, List.mem_cons, List.map_cons, List.mem_cons]
      simp [hname]

theorem get?_ofEntries {l : List (String × α)} (hl : (l.map (·.1)).Nodup) {name : String} {a : α} :
    (ofEntries l).get? name = some a ↔ (name, a) ∈ l := by
  rw [ofEntries, get?_foldl_put hl]
  simp

end Table

/-- **The index maps each signature to its own procedure, and nothing else.** -/
theorem Procedure.get?_index {procedures : List Procedure}
    (h : (procedures.map (·.proccode)).Nodup) {proccode : String} {id : ProcId} :
    (Procedure.index procedures).get? proccode = some id ↔
      ∃ p, procedures[id]? = some p ∧ p.proccode = proccode := by
  have hnames : ((procedures.zipIdx.map fun p => (p.1.proccode, p.2)).map (·.1)).Nodup := by
    have heq : (procedures.zipIdx.map fun p => (p.1.proccode, p.2)).map (·.1) =
        procedures.map (·.proccode) := by
      rw [List.map_map]
      show procedures.zipIdx.map (Procedure.proccode ∘ Prod.fst) = _
      rw [← List.map_map, List.zipIdx_map_fst]
    rw [heq]
    exact h
  rw [Procedure.index, Table.get?_ofEntries hnames, List.mem_map]
  constructor
  · rintro ⟨⟨p, i⟩, hp, heq⟩
    cases heq
    exact ⟨p, List.mk_mem_zipIdx_iff_getElem?.mp hp, rfl⟩
  · rintro ⟨p, hp, rfl⟩
    exact ⟨(p, id), List.mk_mem_zipIdx_iff_getElem?.mpr hp, rfl⟩

namespace Compile

/-! ## 1. Definitions -/

theorem topLevel_eq (t : TargetData) :
    t.topLevel = t.blocks.entries.filterMap fun e =>
      (e.2.block?.filter (·.topLevel)).map fun b => (e.1, b) := by
  unfold TargetData.topLevel
  congr 1
  funext e
  cases e.2 with
  | primitive j => rfl
  | block b => cases hb : b.topLevel <;> simp [BlockEntry.block?, hb, Option.filter]

/-- The hats stand in the order of their ids. -/
theorem sorted_topLevel (t : TargetData) : t.topLevel.Pairwise fun a b => a.1 < b.1 := by
  rw [topLevel_eq, List.pairwise_filterMap]
  refine t.blocks.sorted.imp ?_
  intro a b hlt x hx y hy
  obtain ⟨_, -, rfl⟩ := Option.map_eq_some_iff.mp hx
  obtain ⟨_, -, rfl⟩ := Option.map_eq_some_iff.mp hy
  exact hlt

/-- No two hats have one id. -/
theorem pairwise_topLevel (t : TargetData) : t.topLevel.Pairwise fun a b => a.1 ≠ b.1 := by
  refine (sorted_topLevel t).imp ?_
  intro a b hlt heq
  rw [heq] at hlt
  exact String.lt_irrefl _ hlt

/-- Whether the hat defines a procedure. -/
def isDefinition (hat : String × Block) : Bool := hat.2.opcode == "procedures_definition"

/-- What the procedures are like that some hats define: numbered from zero, with different
    signatures, and in the order of their hats. -/
structure Defined (hats : List (String × Block)) (defs : List Definition) : Prop where
  entry : ∀ (i : Nat) (d : Definition), defs[i]? = some d → d.procedure.entry = i
  codes : (defs.map (·.procedure.proccode)).Nodup
  hats : (defs.map (·.hat)).Sublist ((hats.filter isDefinition).map (·.1))

theorem Defined.skip {hats : List (String × Block)} {defs : List Definition}
    (h : Defined hats defs) (hat : String × Block) : Defined (hats ++ [hat]) defs := by
  refine ⟨h.entry, h.codes, h.hats.trans ?_⟩
  rw [List.filter_append, List.map_append]
  exact List.sublist_append_left _ _

/-- **A hat keeps what the procedures before it are like.** -/
theorem Defined.add {hats : List (String × Block)} {defs : List Definition}
    (h : Defined hats defs) (t : TargetData) (hat : String × Block) :
    Defined (hats ++ [hat]) (addDefinition t defs hat) := by
  unfold addDefinition
  split
  · exact h.skip hat
  · rename_i hop
    have hdef : isDefinition hat = true := by simpa [isDefinition] using hop
    split
    · exact h.skip hat
    · split
      · exact h.skip hat
      · rename_i signature _ _ proccode _
        split
        · exact h.skip hat
        · rename_i hnew
          refine ⟨fun i d hd => ?_, ?_, ?_⟩
          · by_cases hi : i < defs.length
            · rw [List.getElem?_append_left hi] at hd
              exact h.entry i d hd
            · rw [List.getElem?_append_right (Nat.not_lt.mp hi)] at hd
              have hi' : i - defs.length = 0 := by
                have hlt := (List.getElem?_eq_some_iff.mp hd).1
                rw [List.length_singleton] at hlt
                omega
              rw [hi'] at hd
              cases hd
              show defs.length = i
              omega
          · rw [List.map_append]
            refine List.nodup_append.mpr ⟨h.codes, List.nodup_singleton _, fun x hx y hy heq => ?_⟩
            obtain ⟨d, hd, rfl⟩ := List.mem_map.mp hx
            rw [List.map_singleton, List.mem_singleton] at hy
            refine hnew (List.any_eq_true.mpr ⟨d, hd, ?_⟩)
            rw [heq, hy]
            exact beq_self_eq_true _
          · rw [List.map_append, List.filter_append, List.map_append]
            refine h.hats.append ?_
            rw [List.filter_cons_of_pos hdef]
            exact List.Sublist.refl _

theorem Defined.foldl {pre : List (String × Block)} {defs : List Definition}
    (h : Defined pre defs) (t : TargetData) (hats : List (String × Block)) :
    Defined (pre ++ hats) (hats.foldl (addDefinition t) defs) := by
  induction hats generalizing pre defs with
  | nil =>
    rw [List.append_nil]
    exact h
  | cons hat rest ih =>
    have h' := ih (h.add t hat)
    rwa [List.append_assoc] at h'

/-- The procedures of a target are numbered from zero, and no two have one signature. -/
theorem defined_definitions (t : TargetData) : Defined t.topLevel (definitions t) := by
  have hnil : Defined [] [] := ⟨nofun, List.nodup_nil, List.Sublist.refl _⟩
  exact hnil.foldl t t.topLevel

/-! ## 2. Triggers -/

/-- The procedure that the script defines. -/
def Trigger.procedure? : Trigger → Option ProcId
  | .procedure id => some id
  | .event _ => none

/-- A definition waits for no event. -/
theorem hatEvent?_definition {b : Block} (h : b.opcode = "procedures_definition") :
    hatEvent? b = none := by
  simp [hatEvent?, h]

theorem nodup_hats (t : TargetData) : ((definitions t).map (·.hat)).Nodup := by
  refine (defined_definitions t).hats.nodup ?_
  rw [List.Nodup, List.pairwise_map]
  exact (pairwise_topLevel t).filter _

/-- The position at which the definition of a hat is found is its own. -/
theorem findIdx?_hat {defs : List Definition} (h : (defs.map (·.hat)).Nodup) {id : String}
    {i : Nat} : defs.findIdx? (·.hat == id) = some i ↔ ∃ d, defs[i]? = some d ∧ d.hat = id := by
  rw [List.findIdx?_eq_some_iff_getElem]
  constructor
  · rintro ⟨hi, hid, -⟩
    exact ⟨_, List.getElem?_eq_getElem hi, beq_iff_eq.mp hid⟩
  · rintro ⟨d, hd, rfl⟩
    obtain ⟨hi, rfl⟩ := List.getElem?_eq_some_iff.mp hd
    refine ⟨hi, beq_self_eq_true _, fun j hj heq => ?_⟩
    have hne := List.pairwise_iff_getElem.mp (List.pairwise_map.mp h) j i (Nat.lt_trans hj hi) hi hj
    exact hne (beq_iff_eq.mp heq)

/-- A hat starts a procedure just if it defines it. -/
theorem trigger?_eq_procedure {t : TargetData} {hat : String × Block} {i : ProcId} :
    trigger? (definitions t) hat.1 hat.2 = some (.procedure i) ↔
      isDefinition hat = true ∧ ∃ d, (definitions t)[i]? = some d ∧ d.hat = hat.1 := by
  rw [← findIdx?_hat (nodup_hats t)]
  unfold trigger? isDefinition
  rw [beq_iff_eq]
  constructor
  · intro h
    split at h
    · cases h
    · split at h
      · rename_i hop
        obtain ⟨j, hj, heq⟩ := Option.map_eq_some_iff.mp h
        cases heq
        exact ⟨hop, hj⟩
      · cases h
  · rintro ⟨hop, hi⟩
    rw [hatEvent?_definition hop, hi, if_pos hop]
    rfl

/-- The numbers of the procedures that the hats start. -/
def procedureIds (hats : List (Trigger × Block)) : List ProcId :=
  hats.filterMap fun hat => hat.1.procedure?

theorem procedure?_eq_some {tr : Trigger} {i : ProcId} :
    tr.procedure? = some i ↔ tr = .procedure i := by
  cases tr with
  | event e => exact ⟨nofun, nofun⟩
  | procedure id =>
    constructor
    · intro h
      cases h
      rfl
    · intro h
      cases h
      rfl

/-- **Each procedure is started by one hat.** -/
theorem perm_procedureIds (t : TargetData) :
    (procedureIds (hats t)).Perm (List.range (definitions t).length) := by
  have hstart {hat : String × Block} {i : ProcId} :
      (((trigger? (definitions t) hat.1 hat.2).map fun trigger => (trigger, hat.2)).bind
        fun hat => hat.1.procedure?) = some i ↔
      isDefinition hat = true ∧ ∃ d, (definitions t)[i]? = some d ∧ d.hat = hat.1 := by
    rw [← trigger?_eq_procedure]
    cases trigger? (definitions t) hat.1 hat.2 with
    | none => exact ⟨nofun, nofun⟩
    | some tr =>
      show tr.procedure? = some i ↔ _
      rw [procedure?_eq_some, Option.some.injEq]
  unfold procedureIds hats
  rw [List.filterMap_filterMap]
  refine (List.perm_ext_iff_of_nodup ?_ List.nodup_range).mpr fun i => ?_
  · rw [List.Nodup, List.pairwise_filterMap]
    refine (pairwise_topLevel t).imp ?_
    intro a b hne i ha j hb heq
    obtain ⟨-, d, hd, hda⟩ := hstart.mp ha
    obtain ⟨-, d', hd', hdb⟩ := hstart.mp hb
    rw [heq, hd'] at hd
    cases hd
    exact hne (hda.symm.trans hdb)
  · rw [List.mem_filterMap, List.mem_range]
    constructor
    · rintro ⟨hat, -, hi⟩
      obtain ⟨-, d, hd, -⟩ := hstart.mp hi
      exact (List.getElem?_eq_some_iff.mp hd).1
    · intro hi
      have hmem : (definitions t)[i].hat ∈ (definitions t).map (·.hat) :=
        List.mem_map.mpr ⟨_, List.getElem_mem hi, rfl⟩
      obtain ⟨hat, hhat, hid⟩ := List.mem_map.mp ((defined_definitions t).hats.subset hmem)
      obtain ⟨htop, hdef⟩ := List.mem_filter.mp hhat
      exact ⟨hat, htop, hstart.mpr ⟨hdef, _, List.getElem?_eq_getElem hi, hid.symm⟩⟩

end Compile

end BlockScript
