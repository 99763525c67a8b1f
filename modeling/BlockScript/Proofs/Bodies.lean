import BlockScript.Proofs.Cutting
import BlockScript.Proofs.Fragments

/-!
# What continuations have from their script

The body of a continuation is what remains of its script at a label, in normal form. So it names
nothing that the script does not name, and levels go over from the script to its continuations.

* `Script.forall_nodes_bodyAt`: what holds of each statement of a script, whatever stands inside it;
* `Script.label_not_mem_bodyAt`: no label is left;
* `Script.Leveled.bodyAt`: a continuation starts with as many copies saved as its label says.
-/

namespace BlockScript.Script

/-! ## 1. Statements -/

/-- A normal form begins with the normal form of the first statement, unless that is a label, and
    goes on with that of the rest, unless the first ends the list. -/
theorem normal_cons (s : Stmt) (rest : List Stmt) :
    (∃ l, s = .label l) ∧ normal (s :: rest) = normal rest ∨
      (∀ l, s ≠ .label l) ∧ (normal (s :: rest) = [normalStmt s] ∨
        normal (s :: rest) = normalStmt s :: normal rest) := by
  cases s with
  | label l => exact .inl ⟨⟨l, rfl⟩, rfl⟩
  | «return» | endCall | queue | forceQueue | call => exact .inr ⟨nofun, .inl rfl⟩
  | _ => exact .inr ⟨nofun, .inr rfl⟩

/-- What holds of each statement of a script, whatever stands inside it, holds of each statement of
    its normal form. -/
theorem forall_nodes_normal {F : Stmt → Prop}
    (hF : ∀ cond yes no yes' no', F (.branch cond yes no) → F (.branch cond yes' no'))
    (code : List Stmt) : (∀ n ∈ nodes code, F n) → ∀ n ∈ nodes (normal code), F n := by
  apply @Stmt.induction
    (fun s => (∀ n ∈ nodesOf s, F n) → ∀ n ∈ nodesOf (normalStmt s), F n)
    (fun code => (∀ n ∈ nodes code, F n) → ∀ n ∈ nodes (normal code), F n)
  case leaf =>
    intro s hs h
    cases s with
    | branch | «repeat» | «while» | forever => cases hs
    | _ => exact h
  case branch =>
    intro cond yes no hyes hno h
    obtain ⟨hself, h1, h2⟩ := forall_nodesOf_branch.mp h
    exact forall_nodesOf_branch.mpr ⟨hF _ _ _ _ _ hself, hyes h1, hno h2⟩
  case «repeat» => exact fun _ _ _ h => h
  case «while» => exact fun _ _ _ h => h
  case forever => exact fun _ _ h => h
  case nil => exact fun h => h
  case cons =>
    intro s rest hs hrest h
    obtain ⟨h1, h2⟩ := forall_nodes_cons.mp h
    rcases normal_cons s rest with ⟨-, heq⟩ | ⟨-, heq | heq⟩ <;> rw [heq]
    · exact hrest h2
    · exact forall_nodes_cons.mpr ⟨hs h1, forall_nodes_nil⟩
    · exact forall_nodes_cons.mpr ⟨hs h1, hrest h2⟩

/-- A normal form has no label at any depth. -/
theorem label_not_mem_normal {l : Label} (code : List Stmt) :
    Clear code → ∀ n ∈ nodes (normal code), n ≠ .label l := by
  have hloop {loop : Stmt} {body : List Stmt} (hne : loop ≠ .label l)
      (h : Stmt.anyLabel body = false) : ∀ n ∈ loop :: nodes body, n ≠ .label l :=
    List.forall_mem_cons.mpr ⟨hne, fun n hn heq => label_not_mem_nodes l body h (heq ▸ hn)⟩
  apply @Stmt.induction
    (fun s => ClearAt s → (∀ l, s ≠ .label l) → ∀ n ∈ nodesOf (normalStmt s), n ≠ .label l)
    (fun code => Clear code → ∀ n ∈ nodes (normal code), n ≠ .label l)
  case leaf =>
    intro s hs _ hne
    have hnormal : normalStmt s = s := by
      cases s with
      | branch => cases hs
      | _ => rfl
    rw [hnormal, nodesOf_leaf hs]
    exact List.forall_mem_singleton.mpr (hne l)
  case branch =>
    intro cond yes no hyes hno h _
    exact forall_nodesOf_branch.mpr ⟨nofun, hyes h.1, hno h.2⟩
  case «repeat» => exact fun _ _ _ h _ => hloop nofun h
  case «while» => exact fun _ _ _ h _ => hloop nofun h
  case forever => exact fun _ _ h _ => hloop nofun h
  case nil => exact fun _ => forall_nodes_nil
  case cons =>
    intro s rest hs hrest h
    rcases normal_cons s rest with ⟨-, heq⟩ | ⟨hne, heq | heq⟩ <;> rw [heq]
    · exact hrest h.2
    · exact forall_nodes_cons.mpr ⟨hs h.1 hne, forall_nodes_nil⟩
    · exact forall_nodes_cons.mpr ⟨hs h.1 hne, hrest h.2⟩

variable {l : Label} {script : List Stmt} {tails : List (List Stmt)}

theorem Remains.clear (h : Remains l script tails) (hclear : Clear script) :
    Clear tails.flatten := by
  induction h with
  | here rest =>
    rw [List.flatten_singleton]
    exact hclear.2
  | yes _ ih =>
    rw [List.flatten_append, List.flatten_singleton]
    exact clear_append.mpr ⟨ih hclear.1.1, hclear.2⟩
  | no _ ih =>
    rw [List.flatten_append, List.flatten_singleton]
    exact clear_append.mpr ⟨ih hclear.1.2, hclear.2⟩
  | later _ ih => exact ih hclear.2

/-- **What holds of each statement of a script holds of each statement of its continuations.** -/
theorem forall_nodes_bodyAt {F : Stmt → Prop}
    (hF : ∀ cond yes no yes' no', F (.branch cond yes no) → F (.branch cond yes' no'))
    (hl : l ∈ labels script) (h : ∀ n ∈ nodes script, F n) :
    ∀ n ∈ nodes (bodyAt script l), F n := by
  obtain ⟨tails, hrem, hbody⟩ := exists_remains hl
  rw [hbody]
  exact forall_nodes_normal hF _ fun n hn => h n (hrem.mem_nodes hn)

/-- No label is left in a continuation. -/
theorem label_not_mem_bodyAt (hl : l ∈ labels script) (hclear : Clear script) {k : Label} :
    .label k ∉ nodes (bodyAt script l) := by
  obtain ⟨tails, hrem, hbody⟩ := exists_remains hl
  rw [hbody]
  exact fun h => label_not_mem_normal _ (hrem.clear hclear) _ h rfl

/-! ## 2. Levels -/

variable {level : Label → Nat} {d e : Nat}

/-- The rest of a list that is leveled is so. -/
theorem Leveled.tail {s : Stmt} {rest : List Stmt} (h : Leveled level d (s :: rest) e) :
    ∃ d', Leveled level d' rest e := by
  cases h with
  | steady _ h | label _ h | save h | restore h | branch _ _ h | «repeat» _ h | «while» _ h
  | forever _ h | queue _ h | forceQueue _ h | call _ h | «return» h | endCall h => exact ⟨_, h⟩

/-- What remains of a script at a label starts at the level of the label. -/
theorem Leveled.remains (h : Leveled level d script e) (hrem : Remains l script tails) :
    Leveled level (level l) tails.flatten e := by
  induction hrem generalizing d e with
  | here rest =>
    rw [List.flatten_singleton]
    cases h with
    | steady hs => cases hs
    | label hl h =>
      rw [hl]
      exact h
  | yes _ ih =>
    rw [List.flatten_append, List.flatten_singleton]
    cases h with
    | steady hs => cases hs
    | branch hyes _ h => exact (ih hyes).append h
  | no _ ih =>
    rw [List.flatten_append, List.flatten_singleton]
    cases h with
    | steady hs => cases hs
    | branch _ hno h => exact (ih hno).append h
  | later _ ih =>
    obtain ⟨d', h'⟩ := h.tail
    exact ih h'

/-- A normal form is leveled as the script is. -/
theorem Leveled.normal {code : List Stmt} (h : Leveled level d code e) :
    Leveled level d (normal code) e := by
  induction h with
  | nil d => exact .nil d
  | @steady s rest d e hs _ ih =>
    have heq : Script.normal (s :: rest) = s :: Script.normal rest := by
      cases s with
      | label | branch | «return» | endCall | queue | forceQueue | call => cases hs
      | _ => rfl
    rw [heq]
    exact .steady hs ih
  | label _ _ ih => exact ih
  | save _ ih => exact .save ih
  | restore _ ih => exact .restore ih
  | branch _ _ _ ihyes ihno ih => exact .branch ihyes ihno ih
  | «repeat» hbody _ _ ih => exact .repeat hbody ih
  | «while» hbody _ _ ih => exact .while hbody ih
  | forever hbody _ _ ih => exact .forever hbody ih
  | queue hl => exact .queue hl (.nil _)
  | forceQueue hl => exact .forceQueue hl (.nil _)
  | call hl => exact .call hl (.nil _)
  | «return» => exact .return (.nil _)
  | endCall => exact .endCall (.nil _)

/-- **A continuation starts at the level of its label.** -/
theorem Leveled.bodyAt (h : Leveled level d script e) (hl : l ∈ labels script) :
    Leveled level (level l) (bodyAt script l) e := by
  obtain ⟨tails, hrem, hbody⟩ := exists_remains hl
  rw [hbody]
  exact (h.remains hrem).normal

end BlockScript.Script
