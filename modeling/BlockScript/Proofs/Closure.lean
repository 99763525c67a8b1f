import BlockScript.Proofs.Assembly
import Mathlib.Data.List.Pairwise

/-!
# Compiled programs are closed

A target is compiled whatever its blocks are, unless their links lead back somewhere, and then the
project is at fault. What comes out refers to nothing outside of itself.

* `Compile.listening_listeners`: who waits for an event, of the scripts of a target;
* `Compile.Closed`: what a program can rely on about itself;
* `Compile.compile_classified`: there is a program, or the project is at fault;
* `Compile.compile_closed`: each program is closed.
-/

namespace BlockScript

/-- Links that go up in the order of the ids lead back nowhere. -/
theorem TargetData.acyclic_of_lt {t : TargetData} (h : ∀ a b, t.Link a b → a < b) : t.Acyclic := by
  have hup {a b : String} (hab : Relation.TransGen t.Link a b) : a < b := by
    induction hab with
    | single hlink => exact h _ _ hlink
    | tail _ hlink ih => exact String.lt_trans ih (h _ _ hlink)
  intro id hid
  exact String.lt_irrefl id (hup hid)

/-! ## 1. Who waits for events -/

namespace Program

variable (e : Event) (l : Label) (ls : List (Event × List Label))

/-- One more script waits, behind those that wait for the same event. -/
theorem lookup_addListener (e' : Event) :
    ((addListener e l ls).lookup e').getD [] =
      (ls.lookup e').getD [] ++ if e = e' then [l] else [] := by
  induction ls with
  | nil =>
    by_cases heq : e = e'
    · simp [addListener, heq]
    · have hne : (e' == e) = false := beq_false_of_ne (Ne.symm heq)
      simp [addListener, List.lookup_cons, hne, heq]
  | cons first rest ih =>
    obtain ⟨k, kept⟩ := first
    unfold addListener
    by_cases hk : k = e
    · rw [if_pos hk, List.lookup_cons, List.lookup_cons]
      by_cases heq : e = e'
      · simp [hk, heq]
      · have hne : (e' == k) = false := beq_false_of_ne fun h => heq (h.trans hk).symm
        simp [hne, heq]
    · rw [if_neg hk, List.lookup_cons, List.lookup_cons]
      by_cases hk' : e' = k
      · simp [hk', Ne.symm hk]
      · rw [beq_false_of_ne hk']
        exact ih

theorem keys_addListener :
    (addListener e l ls).map (·.1) =
      if e ∈ ls.map (·.1) then ls.map (·.1) else ls.map (·.1) ++ [e] := by
  induction ls with
  | nil => rfl
  | cons first rest ih =>
    obtain ⟨k, kept⟩ := first
    unfold addListener
    by_cases hk : k = e
    · simp [hk]
    · rw [if_neg hk, List.map_cons, ih]
      have hne : e ≠ k := Ne.symm hk
      by_cases he : e ∈ rest.map (·.1)
      · rw [if_pos he, List.map_cons, if_pos (List.mem_cons_of_mem k he)]
      · have hne' : e ∉ k :: rest.map (·.1) := List.not_mem_cons_of_ne_of_not_mem hne he
        rw [if_neg he, List.map_cons, if_neg hne']
        rfl

/-- No event stands twice. -/
theorem nodup_addListener (h : (ls.map (·.1)).Nodup) : ((addListener e l ls).map (·.1)).Nodup := by
  rw [keys_addListener]
  by_cases he : e ∈ ls.map (·.1)
  · rw [if_pos he]
    exact h
  · rw [if_neg he]
    exact List.nodup_append_comm.mp (List.nodup_cons.mpr ⟨he, h⟩)

end Program

namespace Compile

open Script (labels nodes bodyAt)

/-- The event that the script waits for. -/
def Trigger.event? : Trigger → Option Event
  | .event e => some e
  | .procedure _ => none

/-- The scripts that wait for events: what each waits for, and its entry. -/
def waiting (ss : List Labelled) : List (Event × Label) :=
  ss.filterMap fun s => s.trigger.event?.map fun e => (e, s.entry)

/-- The hats that wait for events, in the order of their ids, each with what it waits for. -/
def eventHats (t : TargetData) : List (String × Event) :=
  t.topLevel.filterMap fun hat => (hatEvent? hat.2).map fun e => (hat.1, e)

theorem listeners_eq (ss : List Labelled) :
    listeners ss = (waiting ss).foldl (fun ls w => Program.addListener w.1 w.2 ls) [] := by
  have hfold (ls : List (Event × List Label)) :
      ss.foldl (fun ls s =>
        match s.trigger with
        | .event e => Program.addListener e s.entry ls
        | .procedure _ => ls) ls =
      (waiting ss).foldl (fun ls w => Program.addListener w.1 w.2 ls) ls := by
    induction ss generalizing ls with
    | nil => rfl
    | cons s rest ih =>
      obtain ⟨trigger, entry, body⟩ := s
      cases trigger with
      | event e => exact ih _
      | procedure id => exact ih _
  exact hfold []

/-- **Who waits for an event: the scripts of its hats, in their order.** -/
theorem listening_listeners (ss : List Labelled) (e : Event) :
    ((listeners ss).lookup e).getD [] = ((waiting ss).filter (·.1 = e)).map (·.2) := by
  have hfold (ws : List (Event × Label)) (ls : List (Event × List Label)) :
      ((ws.foldl (fun ls w => Program.addListener w.1 w.2 ls) ls).lookup e).getD [] =
        (ls.lookup e).getD [] ++ (ws.filter (·.1 = e)).map (·.2) := by
    induction ws generalizing ls with
    | nil => exact (List.append_nil _).symm
    | cons w rest ih =>
      rw [List.foldl_cons, ih, Program.lookup_addListener, List.append_assoc]
      by_cases hw : w.1 = e
      · rw [if_pos hw, List.filter_cons_of_pos (by simpa using hw)]
        rfl
      · rw [if_neg hw, List.filter_cons_of_neg (by simpa using hw)]
        rfl
  rw [listeners_eq]
  exact hfold (waiting ss) []

theorem nodup_listeners (ss : List Labelled) : ((listeners ss).map (·.1)).Nodup := by
  have hfold (ws : List (Event × Label)) (ls : List (Event × List Label))
      (h : (ls.map (·.1)).Nodup) :
      ((ws.foldl (fun ls w => Program.addListener w.1 w.2 ls) ls).map (·.1)).Nodup := by
    induction ws generalizing ls with
    | nil => exact h
    | cons w rest ih => exact ih _ (Program.nodup_addListener w.1 w.2 ls h)
  rw [listeners_eq]
  exact hfold (waiting ss) [] List.nodup_nil

/-- The scripts of a target that wait for events are those of its hats that do, in their order. -/
theorem events_waiting {t : TargetData} {ss : List Labelled} {count : Nat}
    (h : Scripts t ss count) : (waiting ss).map (·.1) = (eventHats t).map (·.2) := by
  have hscripts : (waiting ss).map (·.1) = (ss.map (·.trigger)).filterMap (·.event?) := by
    rw [waiting, List.map_filterMap, List.filterMap_map]
    congr 1
    funext s
    rw [Option.map_map]
    exact Option.map_id'
  have hhats : (eventHats t).map (·.2) = ((hats t).map (·.1)).filterMap (·.event?) := by
    rw [eventHats, hats, List.map_filterMap, List.map_filterMap, List.filterMap_filterMap]
    congr 1
    funext hat
    unfold trigger?
    cases hatEvent? hat.2 with
    | some e => rfl
    | none =>
      dsimp only
      split
      · cases (definitions t).findIdx? (·.hat == hat.1) <;> rfl
      · rfl
  rw [hscripts, hhats, h.triggers]

theorem entry_mem_labels {procedures : List Procedure} {s : Labelled} (h : Whole procedures s) :
    s.entry ∈ labels s.body := by
  obtain ⟨rest, hrest⟩ := h.starts
  rw [hrest]
  exact List.mem_cons_self

/-- No two scripts that wait for events have one entry. -/
theorem nodup_waiting {t : TargetData} {ss : List Labelled} {count : Nat}
    (h : Scripts t ss count) : ((waiting ss).map (·.2)).Nodup := by
  have hsub : ((waiting ss).map (·.2)).Sublist (ss.flatMap fun s => labels s.body) := by
    have hwhole := h.whole
    clear h
    induction ss with
    | nil => exact .slnil
    | cons s rest ih =>
      obtain ⟨hs, hrest⟩ := List.forall_mem_cons.mp hwhole
      rw [List.flatMap_cons, waiting, List.filterMap_cons]
      cases s.trigger.event? with
      | none => exact (ih hrest).trans (List.sublist_append_right _ _)
      | some e => exact (List.singleton_sublist.mpr (entry_mem_labels hs)).append (ih hrest)
  exact hsub.nodup (h.labels.nodup_iff.mpr List.nodup_range)

/-! ## 2. Closed programs -/

/-- What a program can rely on about itself, given the scripts that it comes from. -/
structure Closed (t : TargetData) (ss : List Labelled) (p : Program) : Prop where
  /-- Continuations stand at their labels. -/
  label : ∀ (i : Nat) c, p.continuations[i]? = some c → c.label = i
  /-- No body holds a label, at any depth. -/
  unlabelled : ∀ c ∈ p.continuations, ∀ l, .label l ∉ nodes c.body
  /-- Each continuation comes from one script, and what it names is there: the labels of its own
      script, procedures with as many parameters as it passes, and arguments of the procedure that
      its script defines. Calls end and loops run only inside of procedures. -/
  script : ∀ c ∈ p.continuations, ∃ s ∈ ss, c.label ∈ labels s.body ∧
    (∀ s' ∈ ss, c.label ∈ labels s'.body → s' = s) ∧
    ∀ x ∈ nodes c.body, x.Fits p.procedures (s.trigger.own p.procedures) (· ∈ labels s.body)
  /-- There is a continuation for each label of a script. -/
  inRange : ∀ s ∈ ss, ∀ l ∈ labels s.body, ∃ c, p.continuations[l]? = some c
  /-- Procedures are found under their own signatures, and nothing else is found. -/
  index : ∀ code id, p.index.get? code = some id ↔
    ∃ q, p.procedures[id]? = some q ∧ q.proccode = code
  /-- Hats are taken in the order of their ids, each once. -/
  ordered : (eventHats t).Pairwise fun a b => a.1 < b.1
  /-- There is one script for each hat that waits for an event, and it waits for this event. -/
  events : (waiting ss).map (·.1) = (eventHats t).map (·.2)
  /-- No two of these scripts are one. -/
  entries : ((waiting ss).map (·.2)).Nodup
  /-- No event stands twice. -/
  keys : (p.listeners.map (·.1)).Nodup
  /-- Under each event stand the scripts that wait for it, in their order. -/
  listening : ∀ e, p.listening e = ((waiting ss).filter (·.1 = e)).map (·.2)

/-- A label stands in one script only. -/
theorem script_unique {t : TargetData} {ss : List Labelled} {count : Nat} (h : Scripts t ss count)
    {s s' : Labelled} (hs : s ∈ ss) (hs' : s' ∈ ss) {l : Label} (hl : l ∈ labels s.body)
    (hl' : l ∈ labels s'.body) : s' = s := by
  have hnodup := h.labels.nodup_iff.mpr List.nodup_range
  have hdisjoint := (List.nodup_flatMap.mp hnodup).2
  by_contra hne
  have hsymm : Std.Symm (Function.onFun List.Disjoint fun s : Labelled => labels s.body) :=
    ⟨fun _ _ hd => List.disjoint_symm hd⟩
  exact hdisjoint.forall hs' hs hne hl' hl

/-- A program that is put together from scripts is closed. -/
theorem Assembled.closed {t : TargetData} {ss : List Labelled} {p : Program}
    (h : Assembled t ss p) : Closed t ss p := by
  have hcont {c : Script.Continuation} (hc : c ∈ p.continuations) :
      ∃ s ∈ ss, c.label ∈ labels s.body ∧ c.body = bodyAt s.body c.label := by
    obtain ⟨i, hi⟩ := List.getElem?_of_mem hc
    obtain ⟨hlabel, hs⟩ := h.continuation i c hi
    rw [hlabel]
    exact hs
  constructor
  case label => exact fun i c hc => (h.continuation i c hc).1
  case unlabelled =>
    intro c hc l
    obtain ⟨s, hs, hl, hbody⟩ := hcont hc
    rw [hbody]
    exact Script.label_not_mem_bodyAt hl (h.scripts.whole s hs).clear
  case script =>
    intro c hc
    obtain ⟨s, hs, hl, hbody⟩ := hcont hc
    refine ⟨s, hs, hl, fun s' hs' hl' => script_unique h.scripts hs hs' hl hl', ?_⟩
    rw [hbody, h.procedures]
    exact Script.forall_nodes_bodyAt (fun cond yes no yes' no' hbranch => hbranch) hl
      (h.scripts.whole s hs).fits
  case inRange =>
    intro s hs l hl
    have hmem := h.scripts.labels.mem_iff.mp (List.mem_flatMap.mpr ⟨s, hs, hl⟩)
    exact ⟨_, List.getElem?_eq_getElem (List.mem_range.mp hmem)⟩
  case index =>
    intro code id
    rw [h.index]
    refine Procedure.get?_index ?_
    rw [h.procedures]
    exact nodup_proccodes t
  case ordered =>
    rw [eventHats, List.pairwise_filterMap]
    refine (sorted_topLevel t).imp ?_
    intro a b hlt x hx y hy
    obtain ⟨e, -, rfl⟩ := Option.map_eq_some_iff.mp hx
    obtain ⟨e', -, rfl⟩ := Option.map_eq_some_iff.mp hy
    exact hlt
  case events => exact events_waiting h.scripts
  case entries => exact nodup_waiting h.scripts
  case keys =>
    rw [h.listeners]
    exact nodup_listeners ss
  case listening =>
    intro e
    rw [Program.listening, h.listeners]
    exact listening_listeners ss e

/-! ## 3. Compilation -/

/-- If links lead back nowhere, then there is a program. -/
theorem exists_compile {t : TargetData} (h : t.Acyclic) (stage : Option TargetData) :
    ∃ p, t.compile stage = .ok p := by
  have hyields := yields_compile t stage
  generalize t.compile stage = result at hyields
  cases hyields with
  | @ok p _ => exact ⟨p, rfl⟩
  | error he => exact absurd h he.2

/-- **A target is compiled, or the project is at fault**: no bound is reached, and nothing goes
    wrong inside. If links lead back nowhere, then it is compiled. -/
theorem compile_classified (t : TargetData) (stage : Option TargetData) :
    ((∃ p, t.compile stage = .ok p) ∨ ∃ e, t.compile stage = .error (.project e)) ∧
      (t.Acyclic → ∃ p, t.compile stage = .ok p) := by
  refine ⟨?_, fun hacyclic => exists_compile hacyclic stage⟩
  have h := yields_compile t stage
  generalize t.compile stage = result at h
  cases h with
  | @ok p _ => exact .inl ⟨p, rfl⟩
  | error he =>
    obtain ⟨⟨e, rfl⟩, -⟩ := he
    exact .inr ⟨e, rfl⟩

/-- A sprite that jumps when the space bar is pressed: by a procedure without yields, whose argument
    comes from a block that a wait shares. -/
def jumping : TargetData where
  name := "Jumping"
  blocks := ⟨[
    ("a", .block {
      opcode := "event_whenkeypressed", next := some "b", topLevel := true
      fields := ⟨[("KEY_OPTION", ⟨" ", none⟩)], List.pairwise_singleton _ _⟩ }),
    ("b", .block {
      opcode := "procedures_call", next := some "c"
      inputs := ⟨[("height id", .block "r")], List.pairwise_singleton _ _⟩
      mutation := some { proccode := some "jump %s", argumentIds := some "[\"height id\"]" } }),
    ("c", .block {
      opcode := "control_wait"
      inputs := ⟨[("DURATION", .block "r")], List.pairwise_singleton _ _⟩ }),
    ("d", .block {
      opcode := "procedures_definition", next := some "e", topLevel := true
      inputs := ⟨[("custom_block", .block "p")], List.pairwise_singleton _ _⟩ }),
    ("e", .block {
      opcode := "control_repeat"
      inputs := ⟨[("SUBSTACK", .block "f"), ("TIMES", .literal (.text "10"))], by decide⟩ }),
    ("f", .block {
      opcode := "motion_changeyby"
      inputs := ⟨[("DY", .block "g")], List.pairwise_singleton _ _⟩ }),
    ("g", .block {
      opcode := "argument_reporter_string_number"
      fields := ⟨[("VALUE", ⟨"height", none⟩)], List.pairwise_singleton _ _⟩ }),
    ("p", .block {
      opcode := "procedures_prototype"
      mutation := some {
        proccode := some "jump %s", argumentNames := some "[\"height\"]"
        warp := some (.string "true") } }),
    ("r", .block { opcode := "sensing_timer" })], by decide⟩

theorem jumping_acyclic : jumping.Acyclic := by
  refine TargetData.acyclic_of_lt fun a b hlink => ?_
  obtain ⟨block, hblock, hrefers⟩ := hlink
  obtain ⟨entry, hentry, hb⟩ := Option.bind_eq_some_iff.mp hblock
  have hmem := Table.mem_of_get? hentry
  simp only [jumping, List.mem_cons, Prod.mk.injEq, List.not_mem_nil, or_false] at hmem
  rcases hmem with ⟨rfl, rfl⟩ | ⟨rfl, rfl⟩ | ⟨rfl, rfl⟩ | ⟨rfl, rfl⟩ | ⟨rfl, rfl⟩ | ⟨rfl, rfl⟩ |
    ⟨rfl, rfl⟩ | ⟨rfl, rfl⟩ | ⟨rfl, rfl⟩ <;> cases hb <;>
    simp [Table.values, Table.empty] at hrefers
  -- the blocks that refer to others
  case inl.refl =>
    subst hrefers
    decide
  case inr.inl.refl => rcases hrefers with rfl | rfl <;> decide
  case inr.inr.inl.refl =>
    subst hrefers
    decide
  case inr.inr.inr.inl.refl => rcases hrefers with rfl | rfl <;> decide
  case inr.inr.inr.inr.inl.refl =>
    subst hrefers
    decide
  case inr.inr.inr.inr.inr.inl.refl =>
    subst hrefers
    decide

theorem jumping_compiles : jumping.Acyclic ∧ ∃ p, jumping.compile none = .ok p :=
  ⟨jumping_acyclic, (compile_classified jumping none).2 jumping_acyclic⟩

end Compile

end BlockScript
