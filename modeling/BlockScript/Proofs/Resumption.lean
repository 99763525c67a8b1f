import BlockScript.Host.Headless
import BlockScript.Proofs.Control
import BlockScript.Proofs.Cutting

/-!
# Cutting keeps the meaning of a script

A script that is resumed at a label runs the rest of the list in which the label stands, then, as
long as control falls through, the rest of each list around that one. The continuation at the label
does the same in one list, without labels and without what no control reaches.

* `Act.Ends`: how statements end, said without a bound on steps (`Act.comes_block_iff`);
* `Act.blocks`: lists of statements in turn, as long as control falls through;
* `Script.Pruned`: a script without some labels and some statements behind terminators;
* `Act.Ends.pruned`, `Act.Ends.unpruned`: pruning changes nothing.
-/

namespace BlockScript

namespace Act

variable {H : Type}

/-! ## 1. Runs with enough steps -/

/-- What an act comes to. -/
abbrev Result (H α : Type) := EStateM.Result Fault (Turn H) α

/-- The act has come to its end, well or with a fault of its own. -/
def Finished {α : Type} (r : Result H α) : Prop := ∀ t, r ≠ .error .exhausted t

/-- With enough steps the act comes to its end, and to this one. -/
def Comes {α : Type} (act : Nat → Act H α) (t : Turn H) (r : Result H α) : Prop :=
  Finished r ∧ ∃ steps, act steps t = r

/-- No number of steps is enough. -/
def Diverges {α : Type} (act : Nat → Act H α) (t : Turn H) : Prop :=
  ∀ steps, ∃ t', act steps t = .error .exhausted t'

/-- An act diverges just if it comes to no end. -/
theorem diverges_iff {α : Type} {act : Nat → Act H α} {t : Turn H} :
    Diverges act t ↔ ∀ r, ¬ Comes act t r := by
  constructor
  · rintro h r ⟨hr, steps, rfl⟩
    obtain ⟨t', ht'⟩ := h steps
    exact hr t' ht'
  · intro h steps
    by_contra hne
    exact h _ ⟨fun t' ht' => hne ⟨t', ht'⟩, steps, rfl⟩

variable [Host H]

/-- Executes lists of statements in turn, for as long as control falls through from one to the
    next. -/
def blocks (steps : Nat) : List (List Stmt) → Act H (Option Exit)
  | [] => return none
  | code :: rest => do
    match ← block steps code with
    | none => blocks steps rest
    | some e => return some e

/-- How statements end. -/
inductive Ends : List Stmt → Turn H → Result H (Option Exit) → Prop
  | nil (t : Turn H) : Ends [] t (.ok none t)
  | onward {s : Stmt} {rest code : List Stmt} {t t' : Turn H} {r : Result H (Option Exit)}
      (hs : exec s t = .ok (.onward code) t') (h : Ends (code ++ rest) t' r) :
      Ends (s :: rest) t r
  | leave {s : Stmt} {rest : List Stmt} {t t' : Turn H} {e : Exit}
      (hs : exec s t = .ok (.leave e) t') : Ends (s :: rest) t (.ok (some e) t')
  | fault {s : Stmt} {rest : List Stmt} {t t' : Turn H} {e : Fault}
      (hs : exec s t = .error e t') : Ends (s :: rest) t (.error e t')

theorem block_cons (steps : Nat) (s : Stmt) (rest : List Stmt) (t : Turn H) :
    block (steps + 1) (s :: rest) t = match exec s t with
      | .ok (.onward code) t' => block steps (code ++ rest) t'
      | .ok (.leave e) t' => .ok (some e) t'
      | .error e t' => .error e t' := by
  rw [block, bind_apply]
  cases exec s t with
  | ok c t' => cases c <;> rfl
  | error e t' => rfl

/-- A run that finishes ends as the rules say. -/
theorem ends_of_block {steps : Nat} {code : List Stmt} {t : Turn H}
    (h : Finished (block steps code t)) : Ends code t (block steps code t) := by
  induction steps generalizing code t with
  | zero => exact absurd rfl (h t)
  | succ steps ih =>
    cases code with
    | nil => exact .nil t
    | cons s rest =>
      rw [block_cons] at h ⊢
      cases hs : exec s t with
      | ok c t' =>
        rw [hs] at h
        cases c with
        | onward code => exact .onward hs (ih h)
        | leave e => exact .leave hs
      | error e t' => exact .fault hs

/-- What ends as the rules say is found by every run of enough steps. -/
theorem Ends.block {code : List Stmt} {t : Turn H} {r : Result H (Option Exit)}
    (h : Ends code t r) : ∃ n, ∀ steps, n ≤ steps → Act.block steps code t = r := by
  induction h with
  | nil t =>
    refine ⟨1, fun steps hle => ?_⟩
    obtain ⟨k, rfl⟩ := Nat.exists_eq_add_of_le' hle
    rfl
  | onward hs _ ih =>
    obtain ⟨n, hn⟩ := ih
    refine ⟨n + 1, fun steps hle => ?_⟩
    obtain ⟨k, rfl⟩ := Nat.exists_eq_add_of_le' hle
    rw [← Nat.add_assoc, block_cons, hs]
    exact hn _ (Nat.le_add_left n k)
  | leave hs =>
    refine ⟨1, fun steps hle => ?_⟩
    obtain ⟨k, rfl⟩ := Nat.exists_eq_add_of_le' hle
    rw [block_cons, hs]
  | fault hs =>
    refine ⟨1, fun steps hle => ?_⟩
    obtain ⟨k, rfl⟩ := Nat.exists_eq_add_of_le' hle
    rw [block_cons, hs]

/-- **Runs of enough steps end as the rules say.** -/
theorem comes_block_iff {code : List Stmt} {t : Turn H} {r : Result H (Option Exit)} :
    Comes (block · code) t r ↔ Finished r ∧ Ends code t r := by
  constructor
  · rintro ⟨hr, steps, rfl⟩
    exact ⟨hr, ends_of_block hr⟩
  · rintro ⟨hr, h⟩
    obtain ⟨n, hn⟩ := h.block
    exact ⟨hr, n, hn n (Nat.le_refl n)⟩

/-! ## 2. One list after the other -/

/-- Statements after those to whose end control comes. -/
theorem Ends.append {a b : List Stmt} {t t' : Turn H} {r : Result H (Option Exit)}
    (ha : Ends a t (.ok none t')) (hb : Ends b t' r) : Ends (a ++ b) t r := by
  generalize hr : (.ok none t' : Result H (Option Exit)) = ra at ha
  induction ha with
  | nil t =>
    cases hr
    exact hb
  | onward hs _ ih =>
    rw [List.cons_append]
    refine .onward hs ?_
    rw [← List.append_assoc]
    exact ih hr
  | leave hs => cases hr
  | fault hs => cases hr

/-- Statements that control never reaches. -/
theorem Ends.append_left {a : List Stmt} {t : Turn H} {r : Result H (Option Exit)}
    (ha : Ends a t r) (hr : ∀ t', r ≠ .ok none t') (b : List Stmt) : Ends (a ++ b) t r := by
  induction ha with
  | nil t => exact absurd rfl (hr t)
  | onward hs _ ih =>
    rw [List.cons_append]
    refine .onward hs ?_
    rw [← List.append_assoc]
    exact ih hr
  | leave hs => exact .leave hs
  | fault hs => exact .fault hs

/-- Two lists end as the second does if control comes to the end of the first, and otherwise as the
    first does. -/
theorem Ends.of_append {a b : List Stmt} {t : Turn H} {r : Result H (Option Exit)}
    (h : Ends (a ++ b) t r) :
    (∃ t', Ends a t (.ok none t') ∧ Ends b t' r) ∨ Ends a t r ∧ ∀ t', r ≠ .ok none t' := by
  generalize hcode : a ++ b = code at h
  induction h generalizing a with
  | nil t =>
    obtain ⟨rfl, rfl⟩ := List.append_eq_nil_iff.mp hcode
    exact .inl ⟨t, .nil t, .nil t⟩
  | @onward s rest code t t' r hs h ih =>
    cases a with
    | nil =>
      subst hcode
      exact .inl ⟨t, .nil t, .onward hs h⟩
    | cons s' rest' =>
      cases hcode
      rcases ih (List.append_assoc ..) with ⟨u, hu, hb⟩ | ⟨hr, hne⟩
      · exact .inl ⟨u, .onward hs hu, hb⟩
      · exact .inr ⟨.onward hs hr, hne⟩
  | @leave s rest t t' e hs =>
    cases a with
    | nil =>
      subst hcode
      exact .inl ⟨t, .nil t, .leave hs⟩
    | cons s' rest' =>
      cases hcode
      exact .inr ⟨.leave hs, fun _ h => by cases h⟩
  | @fault s rest t t' e hs =>
    cases a with
    | nil =>
      subst hcode
      exact .inl ⟨t, .nil t, .fault hs⟩
    | cons s' rest' =>
      cases hcode
      exact .inr ⟨.fault hs, fun _ h => by cases h⟩

theorem blocks_cons (steps : Nat) (code : List Stmt) (rest : List (List Stmt)) (t : Turn H) :
    blocks steps (code :: rest) t = match block steps code t with
      | .ok none t' => blocks steps rest t'
      | .ok (some e) t' => .ok (some e) t'
      | .error e t' => .error e t' := by
  rw [blocks, bind_apply]
  cases block steps code t with
  | ok c t' => cases c <;> rfl
  | error e t' => rfl

/-- Lists that are run in turn and finish end as if they were one list. -/
theorem ends_of_blocks {steps : Nat} {tails : List (List Stmt)} {t : Turn H}
    (h : Finished (blocks steps tails t)) : Ends tails.flatten t (blocks steps tails t) := by
  induction tails generalizing t with
  | nil => exact .nil t
  | cons code rest ih =>
    rw [blocks_cons] at h ⊢
    rw [List.flatten_cons]
    cases hc : block steps code t with
    | error e t' =>
      rw [hc] at h
      have hends : Ends code t (block steps code t) := ends_of_block (hc ▸ h)
      rw [hc] at hends
      exact hends.append_left (fun _ h => by cases h) _
    | ok c t' =>
      have hends : Ends code t (block steps code t) :=
        ends_of_block (hc ▸ fun _ h => by cases h)
      rw [hc] at h hends
      cases c with
      | none => exact hends.append (ih h)
      | some e => exact hends.append_left (fun _ h => by cases h) _

/-- One list ends as its parts do when they are run in turn, with enough steps for each. -/
theorem Ends.blocks {tails : List (List Stmt)} {t : Turn H} {r : Result H (Option Exit)}
    (h : Ends tails.flatten t r) : ∃ n, ∀ steps, n ≤ steps → Act.blocks steps tails t = r := by
  induction tails generalizing t with
  | nil =>
    cases h
    exact ⟨0, fun _ _ => rfl⟩
  | cons code rest ih =>
    rw [List.flatten_cons] at h
    rcases h.of_append with ⟨t', hcode, hrest⟩ | ⟨hcode, hne⟩
    · obtain ⟨n, hn⟩ := hcode.block
      obtain ⟨m, hm⟩ := ih hrest
      refine ⟨max n m, fun steps hle => ?_⟩
      rw [blocks_cons, hn steps (Nat.le_trans (Nat.le_max_left n m) hle)]
      exact hm steps (Nat.le_trans (Nat.le_max_right n m) hle)
    · obtain ⟨n, hn⟩ := hcode.block
      refine ⟨n, fun steps hle => ?_⟩
      rw [blocks_cons, hn steps hle]
      cases r with
      | error e t' => rfl
      | ok c t' =>
        cases c with
        | none => exact absurd rfl (hne t')
        | some e => rfl

/-- **To run lists in turn is to run them as one.** -/
theorem comes_blocks_iff {tails : List (List Stmt)} {t : Turn H} {r : Result H (Option Exit)} :
    Comes (blocks · tails) t r ↔ Finished r ∧ Ends tails.flatten t r := by
  constructor
  · rintro ⟨hr, steps, rfl⟩
    exact ⟨hr, ends_of_blocks hr⟩
  · rintro ⟨hr, h⟩
    obtain ⟨n, hn⟩ := h.blocks
    exact ⟨hr, n, hn n (Nat.le_refl n)⟩

end Act

/-! ## 3. Pruning -/

namespace Script

/-- A script, and the same without some of its labels, and with anything at all behind its
    terminators. -/
inductive Pruned : List Stmt → List Stmt → Prop
  | nil : Pruned [] []
  | label (l : Label) {a b : List Stmt} (h : Pruned a b) : Pruned (.label l :: a) b
  | same (s : Stmt) {a b : List Stmt} (h : Pruned a b) : Pruned (s :: a) (s :: b)
  | branch (cond : Expr) {yes yes' no no' a b : List Stmt} (hyes : Pruned yes yes')
      (hno : Pruned no no') (h : Pruned a b) :
      Pruned (.branch cond yes no :: a) (.branch cond yes' no' :: b)
  | last {s : Stmt} (hs : s.isTerminator = true) (a b : List Stmt) : Pruned (s :: a) (s :: b)

theorem Pruned.refl : (code : List Stmt) → Pruned code code
  | [] => .nil
  | s :: rest => .same s (Pruned.refl rest)

theorem Pruned.append {a a' b b' : List Stmt} (ha : Pruned a a') (hb : Pruned b b') :
    Pruned (a ++ b) (a' ++ b') := by
  induction ha with
  | nil => exact hb
  | label l _ ih => exact .label l ih
  | same s _ ih => exact .same s ih
  | branch cond hyes hno _ _ _ ih => exact .branch cond hyes hno ih
  | last hs a b => exact .last hs _ _

/-- The normal form of a script is the script pruned. -/
theorem pruned_normal (script : List Stmt) : Pruned script (normal script) := by
  apply @Stmt.induction
    (fun s => ∀ rest, Pruned rest (normal rest) → Pruned (s :: rest) (normal (s :: rest)))
    (fun script => Pruned script (normal script))
  case leaf =>
    intro s hs rest hrest
    cases s with
    | label l => exact .label l hrest
    | branch | «repeat» | «while» | forever => cases hs
    | «return» | endCall | queue | forceQueue | call => exact .last rfl rest []
    | _ => exact .same _ hrest
  case branch => exact fun cond yes no hyes hno rest hrest => .branch cond hyes hno hrest
  case «repeat» => exact fun _ _ _ rest hrest => .same _ hrest
  case «while» => exact fun _ _ _ rest hrest => .same _ hrest
  case forever => exact fun _ _ rest hrest => .same _ hrest
  case nil => exact .nil
  case cons => exact fun s rest hs hrest => hs rest hrest

end Script

/-! ## 4. Pruning changes nothing -/

namespace Act

variable {H : Type} [Host H]

/-- The end of a procedure in the statements, if there is one, is the end of a procedure that the
    thread is in. -/
def Enclosed (code : List Stmt) (t : Turn H) : Prop :=
  t.thread.calls ≠ [] ∨ .endCall ∉ Script.nodes code

theorem Enclosed.onward {s : Stmt} {rest code : List Stmt} {t t' : Turn H}
    (h : Enclosed (s :: rest) t) (hs : exec s t = .ok (.onward code) t') :
    Enclosed (code ++ rest) t' := by
  have ho := exec_onward hs
  rcases h with hcalls | hmem
  · left
    intro hnil
    refine hcalls (List.length_eq_zero_iff.mp ?_)
    rw [← ho.length_calls, hnil]
    rfl
  · right
    intro h
    have hs : ∀ n ∈ Script.nodesOf s, n ≠ .endCall := fun n hn heq =>
      hmem (Script.mem_nodes_cons.mpr (.inl (heq ▸ hn)))
    rcases Script.mem_nodes_append.mp h with h | h
    · exact ho.forall_nodes (fun _ _ _ _ => nofun) hs _ h rfl
    · exact hmem (Script.mem_nodes_cons.mpr (.inr h))

/-- Behind a terminator control never goes on. -/
theorem Enclosed.not_onward {s : Stmt} {rest code : List Stmt} {t t' : Turn H}
    (h : Enclosed (s :: rest) t) (hterm : s.isTerminator = true) :
    exec s t ≠ .ok (.onward code) t' := by
  intro hs
  obtain ⟨rfl, hcalls⟩ := not_onward_of_isTerminator hterm hs
  rcases h with h | h
  · exact h hcalls
  · exact h (Script.mem_nodes_cons.mpr (.inl (Script.mem_nodesOf_self _)))

/-- Which side of a branch is taken does not depend on the sides. -/
theorem exec_branch_onward {cond : Expr} {yes no yes' no' code : List Stmt} {t t' : Turn H}
    (h : exec (.branch cond yes no) t = .ok (.onward code) t') :
    (code = yes ∧ exec (.branch cond yes' no') t = .ok (.onward yes') t') ∨
      (code = no ∧ exec (.branch cond yes' no') t = .ok (.onward no') t') := by
  rw [exec_branch] at h ⊢
  split at h
  · rename_i b _ _
    cases h
    cases b with
    | true => exact .inl ⟨rfl, rfl⟩
    | false => exact .inr ⟨rfl, rfl⟩
  · cases h

/-- A branch only chooses, so it never makes a thread leave. -/
theorem exec_branch_not_leave {cond : Expr} {yes no : List Stmt} {t t' : Turn H} {e : Exit} :
    exec (.branch cond yes no) t ≠ .ok (.leave e) t' := by
  intro h
  rw [exec_branch] at h
  split at h <;> cases h

theorem exec_branch_error {cond : Expr} {yes no yes' no' : List Stmt} {t t' : Turn H} {e : Fault}
    (h : exec (.branch cond yes no) t = .error e t') :
    exec (.branch cond yes' no') t = .error e t' := by
  rw [exec_branch] at h ⊢
  split at h
  · cases h
  · exact h

/-- **What a script does, the pruned one does too.** -/
theorem Ends.pruned {code code' : List Stmt} {t : Turn H} {r : Result H (Option Exit)}
    (h : Ends code t r) (hp : Script.Pruned code code') (henc : Enclosed code t) :
    Ends code' t r := by
  induction h generalizing code' with
  | nil t =>
    cases hp
    exact .nil t
  | onward hs _ ih =>
    have hon := henc.onward hs
    cases hp with
    | label l hp =>
      cases hs
      exact ih hp hon
    | same s hp => exact .onward hs (ih ((Script.Pruned.refl _).append hp) hon)
    | branch cond hyes hno hp =>
      rcases exec_branch_onward hs with ⟨rfl, hs'⟩ | ⟨rfl, hs'⟩
      · exact .onward hs' (ih (hyes.append hp) hon)
      · exact .onward hs' (ih (hno.append hp) hon)
    | last hterm => exact absurd hs (henc.not_onward hterm)
  | leave hs =>
    cases hp with
    | label l hp => cases hs
    | same s hp => exact .leave hs
    | branch cond hyes hno hp => exact absurd hs exec_branch_not_leave
    | last hterm => exact .leave hs
  | fault hs =>
    cases hp with
    | label l hp => cases hs
    | same s hp => exact .fault hs
    | branch cond hyes hno hp => exact .fault (exec_branch_error hs)
    | last hterm => exact .fault hs

/-- **What a pruned script does, the script did too.** -/
theorem Ends.unpruned {code code' : List Stmt} {t : Turn H} {r : Result H (Option Exit)}
    (h : Ends code' t r) (hp : Script.Pruned code code') (henc : Enclosed code t) :
    Ends code t r := by
  -- a label of the script is passed while the pruned one stands still, so there is an induction
  -- over the pruning inside each step
  induction h generalizing code with
  | nil t =>
    generalize hnil : ([] : List Stmt) = code' at hp
    induction hp with
    | nil => exact .nil t
    | label l _ ih => exact .onward (exec_label l t) (ih (henc.onward (exec_label l t)) hnil)
    | same | branch | last => cases hnil
  | @onward s rest code' t t' r hs _ ih =>
    generalize hcons : s :: rest = code' at hp
    induction hp with
    | nil => cases hcons
    | label l _ ihp => exact .onward (exec_label l t) (ihp (henc.onward (exec_label l t)) hcons)
    | same s' hp _ =>
      cases hcons
      exact .onward hs (ih ((Script.Pruned.refl _).append hp) (henc.onward hs))
    | branch cond hyes hno hp _ _ _ =>
      cases hcons
      rcases exec_branch_onward hs with ⟨rfl, hs'⟩ | ⟨rfl, hs'⟩
      · exact .onward hs' (ih (hyes.append hp) (henc.onward hs'))
      · exact .onward hs' (ih (hno.append hp) (henc.onward hs'))
    | last hterm =>
      cases hcons
      exact absurd hs (henc.not_onward hterm)
  | @leave s rest t t' e hs =>
    generalize hcons : s :: rest = code' at hp
    induction hp with
    | nil => cases hcons
    | label l _ ihp => exact .onward (exec_label l t) (ihp (henc.onward (exec_label l t)) hcons)
    | same | last =>
      cases hcons
      exact .leave hs
    | branch =>
      cases hcons
      exact absurd hs exec_branch_not_leave
  | @fault s rest t t' e hs =>
    generalize hcons : s :: rest = code' at hp
    induction hp with
    | nil => cases hcons
    | label l _ ihp => exact .onward (exec_label l t) (ihp (henc.onward (exec_label l t)) hcons)
    | same | last =>
      cases hcons
      exact .fault hs
    | branch =>
      cases hcons
      exact .fault (exec_branch_error hs)

end Act

/-! ## 5. Continuations -/

namespace Act

variable {H : Type} [Host H]

/-- The normal form of statements comes to the same as they do in turn. -/
theorem comes_normal_iff {tails : List (List Stmt)} {t : Turn H} {r : Result H (Option Exit)}
    (henc : Enclosed tails.flatten t) :
    Comes (block · (Script.normal tails.flatten)) t r ↔ Comes (blocks · tails) t r := by
  have hp := Script.pruned_normal tails.flatten
  rw [comes_block_iff, comes_blocks_iff]
  exact and_congr_right fun _ => ⟨fun h => h.unpruned hp henc, fun h => h.pruned hp henc⟩

/-- **A script that is cut keeps its meaning.** Each label in it has one continuation, and to run
    the continuation is to resume the script at the label: to run what remains of the lists around
    it, innermost first and only as long as control falls through. Both come to the same end in the
    same turn, or neither comes to any. -/
theorem resume_continuation {script : List Stmt} {parts : List Script.Continuation}
    (hcut : Script.cut script = .ok parts) {k : Label} (hk : .label k ∈ Script.nodes script)
    (t : Turn H) (ht : t.thread.calls ≠ [] ∨ .endCall ∉ Script.nodes script) :
    ∃ p ∈ parts, p.label = k ∧ (∀ q ∈ parts, q.label = k → q = p) ∧
      ∃ tails, Script.Remains k script tails ∧
        (∀ tails', Script.Remains k script tails' → tails' = tails) ∧
        (∀ r, Comes (block · p.body) t r ↔ Comes (blocks · tails) t r) ∧
        (Diverges (block · p.body) t ↔ Diverges (blocks · tails) t) := by
  obtain ⟨hclear, hnodup, rfl⟩ := Script.cut_eq_ok.mp hcut
  have hmem : k ∈ Script.labels script := Script.mem_labels_of_mem_nodes k script hclear hk
  obtain ⟨tails, hrem, hbody⟩ := Script.exists_remains hmem
  have henc : Enclosed tails.flatten t := ht.imp id fun h hn => h (hrem.mem_nodes hn)
  have hcomes (r : Result H (Option Exit)) :
      Comes (block · (Script.bodyAt script k)) t r ↔ Comes (blocks · tails) t r := by
    rw [hbody]
    exact comes_normal_iff henc
  refine ⟨⟨k, Script.bodyAt script k⟩, List.mem_map.mpr ⟨k, hmem, rfl⟩, rfl, ?_, tails, hrem,
    fun tails' h => h.unique hrem hnodup, hcomes, ?_⟩
  · intro q hq hqk
    obtain ⟨l, -, rfl⟩ := List.mem_map.mp hq
    cases hqk
    rfl
  · rw [diverges_iff, diverges_iff]
    exact forall_congr' fun r => not_congr (hcomes r)

/-- The body of a procedure with labels in branches inside of branches. -/
def nestedScript : List Stmt :=
  [.label 0,
    .branch (.const (.boolean true))
      [.resetTimer, .branch (.const (.boolean false)) [.label 1, .stopOthers] [.label 2, .queue 0],
        .resetTimer]
      [.label 3],
    .endCall, .stopAll]

/-- A thread inside of a procedure. -/
def calledTurn : Turn Headless where
  machine := .still [] {}
  thread := (Thread.start 0 0 0).call 0 4 [] false
  seat := 0
  program := {}

/-- What follows the inner branch and then the outer one, up to the end of the procedure. -/
theorem resume_nestedScript :
    ∃ tails, Script.Remains 1 nestedScript tails ∧
      ∀ r, Comes (block · [.stopOthers, .resetTimer, .endCall]) calledTurn r ↔
        Comes (blocks · tails) calledTurn r := by
  obtain ⟨p, hp, -, huniq, tails, hrem, -, hcomes, -⟩ :=
    resume_continuation (rfl : Script.cut nestedScript = .ok _)
      (show .label 1 ∈ Script.nodes nestedScript by
        simp [Script.nodes, Script.nodesOf, nestedScript])
      calledTurn (.inl (List.cons_ne_nil _ _))
  have hbody : p.body = [.stopOthers, .resetTimer, .endCall] :=
    congrArg Script.Continuation.body
      (huniq ⟨1, _⟩ (List.mem_cons_of_mem _ List.mem_cons_self) rfl).symm
  refine ⟨tails, hrem, fun r => ?_⟩
  rw [← hbody]
  exact hcomes r

end Act

end BlockScript
