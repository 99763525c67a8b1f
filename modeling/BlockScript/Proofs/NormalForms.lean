import BlockScript.Proofs.Bodies

/-!
# Scripts that can be cut

A script can be cut just if its labels stand outside of native loops, and none stands twice. Whether
that is so is said here of all statements of the script, at whatever depth, and not by the way in
which labels are collected and found. What is cut off is in normal form.

* `Script.occurrences`: the labels of a script at whatever depth, as often as they stand;
* `Stmt.LoopsLabel`: a label stands inside a native loop;
* `Script.clear_iff`, `Script.occurrences_eq_labels`: collecting labels comes to the same;
* `Script.Nested`: the lists inside of a list, as far as branches go;
* `Script.Ended`: nothing follows a terminator;
* `Script.cut_iff_labelled`: which scripts can be cut, and what they are cut into.
-/

namespace BlockScript

/-- The label that a statement is. -/
def Stmt.label? : Stmt → Option Label
  | .label l => some l
  | _ => none

/-- The statements inside of a native loop. -/
def Stmt.loop? : Stmt → Option (List Stmt)
  | .repeat _ body | .while _ body | .forever body => some body
  | _ => none

/-- The statement is a native loop, and a label stands inside of it, at whatever depth. -/
def Stmt.LoopsLabel (s : Stmt) : Prop :=
  ∃ body, s.loop? = some body ∧ ∃ l, .label l ∈ Script.nodes body

namespace Script

/-! ## 1. Labels at whatever depth -/

/-- The labels of a script at whatever depth, as often as they stand, a statement before those
    inside of it. -/
def occurrences (script : List Stmt) : List Label := (nodes script).filterMap Stmt.label?

theorem label?_eq_some {s : Stmt} {l : Label} : s.label? = some l ↔ s = .label l := by
  constructor
  · intro h
    cases s with
    | label => exact congrArg Stmt.label (Option.some.inj h)
    | _ => cases h
  · rintro rfl
    rfl

/-- **To look for a label finds one just if one stands there.** -/
theorem anyLabel_iff (body : List Stmt) :
    Stmt.anyLabel body = true ↔ ∃ l, .label l ∈ nodes body := by
  constructor
  · have hloop {loop : Stmt} {body : List Stmt} (h : ∃ l, .label l ∈ nodes body) :
        ∃ l, .label l ∈ loop :: nodes body :=
      h.imp fun _ => List.mem_cons_of_mem _
    apply @Stmt.induction
      (fun s => s.containsLabel = true → ∃ l, .label l ∈ nodesOf s)
      (fun body => Stmt.anyLabel body = true → ∃ l, .label l ∈ nodes body)
    case leaf =>
      intro s hs h
      cases s with
      | label l => exact ⟨l, List.mem_singleton.mpr rfl⟩
      | branch | «repeat» | «while» | forever => cases hs
      | _ => cases h
    case branch =>
      intro cond yes no hyes hno h
      rcases Bool.or_eq_true_iff.mp h with h | h
      · exact (hyes h).imp fun _ hl => List.mem_cons_of_mem _ (List.mem_append_left _ hl)
      · exact (hno h).imp fun _ hl => List.mem_cons_of_mem _ (List.mem_append_right _ hl)
    case «repeat» => exact fun _ _ ih h => hloop (ih h)
    case «while» => exact fun _ _ ih h => hloop (ih h)
    case forever => exact fun _ ih h => hloop (ih h)
    case nil =>
      intro h
      cases h
    case cons =>
      intro s rest hs hrest h
      rcases Bool.or_eq_true_iff.mp h with h | h
      · exact (hs h).imp fun _ hl => mem_nodes_cons.mpr (.inl hl)
      · exact (hrest h).imp fun _ hl => mem_nodes_cons.mpr (.inr hl)
  · rintro ⟨l, hl⟩
    by_contra h
    exact label_not_mem_nodes l body (Bool.eq_false_iff.mpr h) hl

/-- What stands inside a loop of a script stands in the script. -/
theorem mem_nodes_of_loop {loop n : Stmt} {body : List Stmt} (hbody : loop.loop? = some body)
    (hn : n ∈ nodes body) (script : List Stmt) : loop ∈ nodes script → n ∈ nodes script := by
  -- a loop holds its own statements, and those of the loops inside of it
  have hself {other : Stmt} {inner : List Stmt} (hother : other.loop? = some inner)
      (ih : loop ∈ nodes inner → n ∈ nodes inner) :
      loop ∈ other :: nodes inner → n ∈ other :: nodes inner := by
    intro hmem
    refine List.mem_cons_of_mem _ ?_
    rcases List.mem_cons.mp hmem with rfl | hmem
    · cases hother.symm.trans hbody
      exact hn
    · exact ih hmem
  apply @Stmt.induction
    (fun s => loop ∈ nodesOf s → n ∈ nodesOf s)
    (fun script => loop ∈ nodes script → n ∈ nodes script)
  case leaf =>
    intro s hs hmem
    rw [nodesOf_leaf hs, List.mem_singleton] at hmem
    subst hmem
    cases loop with
    | branch | «repeat» | «while» | forever => cases hs
    | _ => cases hbody
  case branch =>
    intro cond yes no hyes hno hmem
    refine List.mem_cons_of_mem _ (List.mem_append.mpr ?_)
    rcases List.mem_cons.mp hmem with rfl | hmem
    · cases hbody
    · exact (List.mem_append.mp hmem).imp hyes hno
  case «repeat» => exact fun _ _ ih => hself rfl ih
  case «while» => exact fun _ _ ih => hself rfl ih
  case forever => exact fun _ ih => hself rfl ih
  case nil =>
    intro h
    cases h
  case cons =>
    intro s rest hs hrest hmem
    exact mem_nodes_cons.mpr ((mem_nodes_cons.mp hmem).imp hs hrest)

/-- A loop has no label to look for just if neither it has one nor the loops inside of it. -/
theorem anyLabel_eq_false_iff {loop : Stmt} {body : List Stmt} (hbody : loop.loop? = some body) :
    Stmt.anyLabel body = false ↔ ∀ n ∈ loop :: nodes body, ¬ n.LoopsLabel := by
  constructor
  · rintro h n hn ⟨inner, hinner, l, hl⟩
    refine label_not_mem_nodes l body h ?_
    rcases List.mem_cons.mp hn with rfl | hn
    · cases hbody.symm.trans hinner
      exact hl
    · exact mem_nodes_of_loop hinner hl body hn
  · intro h
    refine Bool.eq_false_iff.mpr fun hlabel => ?_
    exact h loop List.mem_cons_self ⟨body, hbody, (anyLabel_iff body).mp hlabel⟩

/-- **No label is found in a loop just if none stands in one**, at whatever depth. -/
theorem clear_iff (script : List Stmt) : Clear script ↔ ∀ n ∈ nodes script, ¬ n.LoopsLabel := by
  apply @Stmt.induction
    (fun s => ClearAt s ↔ ∀ n ∈ nodesOf s, ¬ n.LoopsLabel)
    (fun script => Clear script ↔ ∀ n ∈ nodes script, ¬ n.LoopsLabel)
  case leaf =>
    intro s hs
    rw [forall_nodesOf_leaf hs]
    have hclear : ClearAt s := by
      cases s with
      | branch | «repeat» | «while» | forever => cases hs
      | _ => exact trivial
    refine iff_of_true hclear ?_
    rintro ⟨body, hbody, -⟩
    cases s with
    | branch | «repeat» | «while» | forever => cases hs
    | _ => cases hbody
  case branch =>
    intro cond yes no hyes hno
    rw [forall_nodesOf_branch, ← hyes, ← hno]
    refine ⟨fun h => ⟨?_, h⟩, And.right⟩
    rintro ⟨body, hbody, -⟩
    cases hbody
  case «repeat» => exact fun _ _ _ => anyLabel_eq_false_iff rfl
  case «while» => exact fun _ _ _ => anyLabel_eq_false_iff rfl
  case forever => exact fun _ _ => anyLabel_eq_false_iff rfl
  case nil => exact iff_of_true trivial forall_nodes_nil
  case cons =>
    intro s rest hs hrest
    rw [forall_nodes_cons, ← hs, ← hrest, Clear]

/-- **If no label stands in a loop, the labels that are collected are all that stand**, in the same
    order and as often. -/
theorem occurrences_eq_labels (script : List Stmt) :
    Clear script → occurrences script = labels script := by
  have hloop {loop : Stmt} {body : List Stmt} (hne : loop.label? = none)
      (h : Stmt.anyLabel body = false) : (loop :: nodes body).filterMap Stmt.label? = [] := by
    refine List.filterMap_eq_nil_iff.mpr (List.forall_mem_cons.mpr ⟨hne, fun n hn => ?_⟩)
    by_contra hlabel
    obtain ⟨l, hl⟩ := Option.ne_none_iff_exists'.mp hlabel
    rw [label?_eq_some.mp hl] at hn
    exact label_not_mem_nodes l body h hn
  apply @Stmt.induction
    (fun s => ClearAt s → (nodesOf s).filterMap Stmt.label? = labelsAt s)
    (fun script => Clear script → occurrences script = labels script)
  case leaf =>
    intro s hs _
    cases s with
    | branch | «repeat» | «while» | forever => cases hs
    | _ => rfl
  case branch =>
    intro cond yes no hyes hno h
    have hnodes : (nodesOf (.branch cond yes no)).filterMap Stmt.label? =
        occurrences yes ++ occurrences no := List.filterMap_append
    rw [hnodes, hyes h.1, hno h.2, labelsAt]
  case «repeat» => exact fun _ _ _ h => hloop rfl h
  case «while» => exact fun _ _ _ h => hloop rfl h
  case forever => exact fun _ _ h => hloop rfl h
  case nil => exact fun _ => rfl
  case cons =>
    intro s rest hs hrest h
    have hnodes : occurrences (s :: rest) =
        (nodesOf s).filterMap Stmt.label? ++ occurrences rest := List.filterMap_append
    rw [hnodes, hs h.1, hrest h.2, labels]

/-! ## 2. Faults -/

/-- Labels that are collected do not vanish. -/
theorem labelsIn_ne_vanished (l : Label) (script : List Stmt) :
    ∀ seen, labelsIn seen script ≠ .error (.vanished l) := by
  have hok (seen : List Label) : (.ok seen : Except CutError (List Label)) ≠ .error (.vanished l) := by
    intro h
    cases h
  have hseq {x : Except CutError (List Label)} {f : List Label → Except CutError (List Label)}
      (hx : x ≠ .error (.vanished l)) (hf : ∀ seen, f seen ≠ .error (.vanished l)) :
      (x >>= f) ≠ .error (.vanished l) := by
    cases x with
    | ok seen => exact hf seen
    | error e =>
      intro h
      exact hx h
  have hloop (body : List Stmt) (seen : List Label) :
      (if Stmt.anyLabel body then (.error .insideLoop : Except CutError (List Label)) else .ok seen)
        ≠ .error (.vanished l) := by
    split
    · intro h
      cases h
    · exact hok seen
  apply @Stmt.induction
    (fun s => ∀ seen, labelsOf seen s ≠ .error (.vanished l))
    (fun script => ∀ seen, labelsIn seen script ≠ .error (.vanished l))
  case leaf =>
    intro s hs seen
    cases s with
    | branch | «repeat» | «while» | forever => cases hs
    | label =>
      unfold labelsOf
      split
      · intro h
        cases h
      · exact hok _
    | _ => exact hok seen
  case branch => exact fun _ _ _ hyes hno seen => hseq (hyes seen) hno
  case «repeat» => exact fun _ body _ seen => hloop body seen
  case «while» => exact fun _ body _ seen => hloop body seen
  case forever => exact fun body _ seen => hloop body seen
  case nil => exact hok
  case cons => exact fun _ _ hs hrest seen => hseq (hs seen) hrest

/-- **A label that is collected is found.** -/
theorem cut_ne_vanished (script : List Stmt) (l : Label) : cut script ≠ .error (.vanished l) := by
  intro h
  cases hlabels : labelsIn [] script with
  | error e =>
    unfold cut at h
    rw [hlabels] at h
    cases h
    exact labelsIn_ne_vanished l script [] hlabels
  | ok ls =>
    obtain ⟨hclear, hfresh, -⟩ := (labelsIn_eq_ok script).mp hlabels
    have hok := cut_eq_ok.mpr ⟨hclear, hfresh.1, rfl⟩
    rw [h] at hok
    cases hok

/-! ## 3. Normal forms -/

/-- The lists inside of a list, as far as branches go: the list itself, and the sides of each branch
    in one of them. -/
inductive Nested (code : List Stmt) : List Stmt → Prop
  | self : Nested code code
  | yes {block yes no : List Stmt} {cond : Expr} (h : Nested code block)
      (hbranch : .branch cond yes no ∈ block) : Nested code yes
  | no {block yes no : List Stmt} {cond : Expr} (h : Nested code block)
      (hbranch : .branch cond yes no ∈ block) : Nested code no

/-- No statement of the list follows a terminator. -/
def Ended (block : List Stmt) : Prop :=
  ∀ before s after, block = before ++ s :: after → s.isTerminator = true → after = []

theorem ended_nil : Ended [] := by
  intro before s after heq _
  cases before <;> cases heq

theorem Ended.cons {s : Stmt} {rest : List Stmt} (hs : s.isTerminator = true → rest = [])
    (hrest : Ended rest) : Ended (s :: rest) := by
  intro before n after heq hn
  cases before with
  | nil =>
    cases heq
    exact hs hn
  | cons first before =>
    cases heq
    exact hrest before n after rfl hn

theorem isTerminator_normalStmt (s : Stmt) : (normalStmt s).isTerminator = s.isTerminator := by
  cases s <;> rfl

/-- A normal form ends with its first terminator. -/
theorem ended_normal (code : List Stmt) : Ended (normal code) := by
  induction code with
  | nil => exact ended_nil
  | cons s rest ih =>
    cases hs : s.isTerminator with
    | true =>
      have hlast : normal (s :: rest) = [normalStmt s] := by
        cases s with
        | «return» | endCall | queue | forceQueue | call => rfl
        | _ => cases hs
      rw [hlast]
      exact .cons (fun _ => rfl) ended_nil
    | false =>
      rcases normal_cons s rest with ⟨-, heq⟩ | ⟨-, heq | heq⟩ <;> rw [heq]
      · exact ih
      · exact .cons (fun _ => rfl) ended_nil
      · refine .cons (fun hterminator => ?_) ih
        rw [isTerminator_normalStmt, hs] at hterminator
        cases hterminator

/-- Each statement of a normal form is the normal form of one that was there. -/
theorem exists_of_mem_normal {code : List Stmt} {s : Stmt} (h : s ∈ normal code) :
    ∃ s' ∈ code, s = normalStmt s' := by
  induction code with
  | nil => cases h
  | cons first rest ih =>
    have hlater (h : s ∈ normal rest) : ∃ s' ∈ first :: rest, s = normalStmt s' := by
      obtain ⟨s', hs', heq⟩ := ih h
      exact ⟨s', List.mem_cons_of_mem _ hs', heq⟩
    rcases normal_cons first rest with ⟨-, heq⟩ | ⟨-, heq | heq⟩ <;> rw [heq] at h
    · exact hlater h
    · exact ⟨first, List.mem_cons_self, List.mem_singleton.mp h⟩
    · rcases List.mem_cons.mp h with rfl | h
      · exact ⟨first, List.mem_cons_self, rfl⟩
      · exact hlater h

/-- The sides of a branch in a normal form are normal forms. -/
theorem normal_sides {code yes no : List Stmt} {cond : Expr}
    (h : .branch cond yes no ∈ normal code) : ∃ yes' no', yes = normal yes' ∧ no = normal no' := by
  obtain ⟨s, -, heq⟩ := exists_of_mem_normal h
  cases s with
  | branch _ yes' no' =>
    cases heq
    exact ⟨yes', no', rfl, rfl⟩
  | _ => cases heq

/-- **The lists inside of a normal form are normal forms.** -/
theorem Nested.exists_normal {code block : List Stmt} (h : Nested (normal code) block) :
    ∃ code', block = normal code' := by
  induction h with
  | self => exact ⟨code, rfl⟩
  | yes _ hbranch ih =>
    obtain ⟨code', rfl⟩ := ih
    obtain ⟨yes', -, heq, -⟩ := normal_sides hbranch
    exact ⟨yes', heq⟩
  | no _ hbranch ih =>
    obtain ⟨code', rfl⟩ := ih
    obtain ⟨-, no', -, heq⟩ := normal_sides hbranch
    exact ⟨no', heq⟩

/-- A list in normal form: no label is left in it, and nothing follows a terminator, also in the
    sides of branches. -/
structure Normal (code : List Stmt) : Prop where
  labelless : ∀ l, .label l ∉ nodes code
  ended : ∀ block, Nested code block → Ended block

theorem normal_bodyAt {script : List Stmt} {l : Label} (hl : l ∈ labels script)
    (hclear : Clear script) : Normal (bodyAt script l) := by
  refine ⟨fun k => label_not_mem_bodyAt hl hclear, fun block hblock => ?_⟩
  obtain ⟨code, rfl⟩ := hblock.exists_normal
  exact ended_normal code

/-! ## 4. The cut -/

/-- A script that can be cut, in terms of its statements. -/
theorem exists_cut_iff {script : List Stmt} :
    (∃ parts, cut script = .ok parts) ↔
      (∀ n ∈ nodes script, ¬ n.LoopsLabel) ∧ (occurrences script).Nodup := by
  rw [← clear_iff]
  constructor
  · rintro ⟨parts, h⟩
    obtain ⟨hclear, hnodup, -⟩ := cut_eq_ok.mp h
    rw [occurrences_eq_labels script hclear]
    exact ⟨hclear, hnodup⟩
  · rintro ⟨hclear, hnodup⟩
    rw [occurrences_eq_labels script hclear] at hnodup
    exact ⟨_, cut_eq_ok.mpr ⟨hclear, hnodup, rfl⟩⟩

/-- **A script can be cut just if it is well labelled, and what it is cut into is in normal form.**
    A script is refused just if some label stands inside a native loop, at whatever depth, or some
    label stands twice; never because a label is not found. Otherwise there is one continuation for
    each label, in the order in which the labels stand. It holds what remains of the script at the
    label; no label is left in it, and nothing follows a terminator, in it and in the sides of its
    branches. -/
theorem cut_iff_labelled (script : List Stmt) :
    ((∃ e, cut script = .error e) ↔
      (∃ n ∈ nodes script, n.LoopsLabel) ∨ ¬ (occurrences script).Nodup) ∧
    (∀ parts, cut script = .ok parts →
      parts.map (·.label) = occurrences script ∧
      ∀ c ∈ parts, Normal c.body ∧
        ∃ tails, Remains c.label script tails ∧ c.body = normal tails.flatten) ∧
    ∀ l, cut script ≠ .error (.vanished l) := by
  refine ⟨?_, fun parts hparts => ?_, cut_ne_vanished script⟩
  · have herror : (∃ e, cut script = .error e) ↔ ¬ ∃ parts, cut script = .ok parts := by
      cases cut script <;> simp
    rw [herror, exists_cut_iff, not_and_or]
    simp only [not_forall, not_not, exists_prop]
  · obtain ⟨hclear, -, heq⟩ := cut_eq_ok.mp hparts
    refine ⟨?_, fun c hc => ?_⟩
    · rw [heq, List.map_map, occurrences_eq_labels script hclear]
      exact List.map_id _
    · rw [heq] at hc
      obtain ⟨l, hl, rfl⟩ := List.mem_map.mp hc
      exact ⟨normal_bodyAt hl hclear, exists_remains hl⟩

/-- A label in the side of a branch, and one that nothing reaches. -/
def sidedScript : List Stmt :=
  [.label 0, .branch (.const (.boolean true)) [.queue 1, .stopAll, .label 1] [], .endCall, .label 2]

/-- The three labels are kept, and what follows a terminator is not; inside of a loop the same
    statements are refused. -/
theorem cut_sidedScript :
    (∃ parts, cut sidedScript = .ok parts ∧ parts.map (·.label) = [0, 1, 2] ∧
      ∀ c ∈ parts, Normal c.body) ∧
    ∃ e, cut [.forever sidedScript] = .error e := by
  constructor
  · obtain ⟨horder, hbodies⟩ := (cut_iff_labelled sidedScript).2.1 _ rfl
    exact ⟨_, rfl, horder, fun c hc => (hbodies c hc).1⟩
  · refine (cut_iff_labelled [.forever sidedScript]).1.mpr (.inl ?_)
    exact ⟨.forever sidedScript, List.mem_cons_self, sidedScript, rfl, 0, List.mem_cons_self⟩

end Script

end BlockScript
