import BlockScript.Compile.Site
import BlockScript.Proofs.Statements
import Mathlib.Data.List.Nodup

/-!
# Fragments of scripts

The compiler puts scripts together from fragments, each of which takes the labels from one number
up to another and places every one of them once.

* `Expr.Within`, `Stmt.Fits`: what an expression and a statement may name;
* `Script.Leveled`: at each place of a script the same number of copies of the registers is saved,
  however control gets there;
* `Script.Fragment`: a fragment, with the labels that it takes;
* `Fragment.append` and the lemmas after it: fragments are put together, and loops and waits are
  fragments.
-/

namespace BlockScript

/-! ## 1. What may be named -/

/-- How many arguments a script can read, given the procedure that it defines. -/
def Procedure.arity (own : Option Procedure) : Nat := own.elim 0 (·.params.length)

/-- Every argument that the expression reads is one of the first so many. -/
def Expr.Within (arity : Nat) : Expr → Prop
  | .argument i => i < arity
  | .listItem _ e | .listIndexOf _ e | .listContains _ e | .not e | .math _ e | .round e
  | .length e | .keyPressed e | .touching e | .attribute _ e | .cast _ e => e.Within arity
  | .binary _ a b | .compare _ a b | .and a b | .or a b | .join a b | .letterOf a b
  | .contains a b | .random a b => a.Within arity ∧ b.Within arity
  | _ => True

namespace Stmt

/-- Whether the statement passes control neither to a label nor to statements inside it, and leaves
    the save stack alone. -/
def isSteady : Stmt → Bool
  | .label _ | .save | .restore | .branch .. | .repeat .. | .while .. | .forever _ | .return
  | .endCall | .queue _ | .forceQueue _ | .call .. => false
  | _ => true

/-- What a statement may name in a script, given the procedures of the target, the procedure that
    the script defines, and the labels of the script. -/
def Fits (procedures : List Procedure) (own : Option Procedure) (here : Label → Prop)
    (s : Stmt) : Prop :=
  (∀ e ∈ s.exprs, e.Within (Procedure.arity own)) ∧
    match s with
    | .queue l | .forceQueue l => here l
    | .call p args l =>
      here l ∧ ∃ q, procedures[p]? = some q ∧ args.length = q.params.length
    | .endCall => own.isSome = true
    | .repeat .. | .while .. | .forever _ => ∃ q, own = some q ∧ q.warp = true
    | _ => True

variable {procedures : List Procedure} {own : Option Procedure} {here here' : Label → Prop}

theorem Fits.mono (h : ∀ l, here l → here' l) {s : Stmt} (hs : s.Fits procedures own here) :
    s.Fits procedures own here' := by
  refine ⟨hs.1, ?_⟩
  have h2 := hs.2
  cases s with
  | queue l | forceQueue l => exact h l h2
  | call p args l => exact ⟨h l h2.1, h2.2⟩
  | _ => exact h2

theorem fits_of_isSteady {s : Stmt} (hs : s.isSteady = true)
    (h : ∀ e ∈ s.exprs, e.Within (Procedure.arity own)) :
    s.Fits procedures own here := by
  refine ⟨h, ?_⟩
  cases s with
  | queue | forceQueue | call | endCall | «repeat» | «while» | forever => cases hs
  | _ => trivial

section Fits

variable {l : Label} {e : Expr} {r : Register} {yes no : List Stmt}

@[simp] theorem fits_label : (Stmt.label l).Fits procedures own here :=
  ⟨fun _ he => absurd he List.not_mem_nil, trivial⟩

@[simp] theorem fits_save : Stmt.save.Fits procedures own here :=
  ⟨fun _ he => absurd he List.not_mem_nil, trivial⟩

@[simp] theorem fits_restore : Stmt.restore.Fits procedures own here :=
  ⟨fun _ he => absurd he List.not_mem_nil, trivial⟩

@[simp] theorem fits_return : Stmt.return.Fits procedures own here :=
  ⟨fun _ he => absurd he List.not_mem_nil, trivial⟩

@[simp] theorem fits_queue : (Stmt.queue l).Fits procedures own here ↔ here l :=
  ⟨fun h => h.2, fun h => ⟨fun _ he => absurd he List.not_mem_nil, h⟩⟩

@[simp] theorem fits_forceQueue : (Stmt.forceQueue l).Fits procedures own here ↔ here l :=
  ⟨fun h => h.2, fun h => ⟨fun _ he => absurd he List.not_mem_nil, h⟩⟩

@[simp] theorem fits_setRegister :
    (Stmt.setRegister r e).Fits procedures own here ↔ e.Within (Procedure.arity own) :=
  ⟨fun h => h.1 e List.mem_cons_self, fun h => ⟨List.forall_mem_singleton.mpr h, trivial⟩⟩

@[simp] theorem fits_branch :
    (Stmt.branch e yes no).Fits procedures own here ↔ e.Within (Procedure.arity own) :=
  ⟨fun h => h.1 e List.mem_cons_self, fun h => ⟨List.forall_mem_singleton.mpr h, trivial⟩⟩

end Fits

end Stmt

namespace Script

theorem labelsAt_steady {s : Stmt} (hs : s.isSteady = true) : labelsAt s = [] := by
  cases s with
  | label | branch => cases hs
  | _ => rfl

theorem clearAt_steady {s : Stmt} (hs : s.isSteady = true) : ClearAt s := by
  cases s with
  | branch | «repeat» | «while» | forever => cases hs
  | _ => trivial

theorem isLeaf_of_isSteady {s : Stmt} (hs : s.isSteady = true) : s.isLeaf = true := by
  cases s with
  | branch | «repeat» | «while» | forever => cases hs
  | _ => rfl

/-! ## 2. Levels -/

/-- With so many copies saved at the start, so many are saved at the end, and at each label as many
    as `level` says, however control gets there. Behind a terminator any number may be assumed. -/
inductive Leveled (level : Label → Nat) : Nat → List Stmt → Nat → Prop
  | nil (d : Nat) : Leveled level d [] d
  | steady {s : Stmt} {rest : List Stmt} {d e : Nat} (hs : s.isSteady = true)
      (h : Leveled level d rest e) : Leveled level d (s :: rest) e
  | label {l : Label} {rest : List Stmt} {d e : Nat} (hl : level l = d)
      (h : Leveled level d rest e) : Leveled level d (.label l :: rest) e
  | save {rest : List Stmt} {d e : Nat} (h : Leveled level (d + 1) rest e) :
      Leveled level d (.save :: rest) e
  | restore {rest : List Stmt} {d e : Nat} (h : Leveled level d rest e) :
      Leveled level (d + 1) (.restore :: rest) e
  | branch {cond : Expr} {yes no rest : List Stmt} {d d' e : Nat} (hyes : Leveled level d yes d')
      (hno : Leveled level d no d') (h : Leveled level d' rest e) :
      Leveled level d (.branch cond yes no :: rest) e
  | «repeat» {times : Expr} {body rest : List Stmt} {d e : Nat} (hbody : Leveled level d body d)
      (h : Leveled level d rest e) : Leveled level d (.repeat times body :: rest) e
  | «while» {cond : Expr} {body rest : List Stmt} {d e : Nat} (hbody : Leveled level d body d)
      (h : Leveled level d rest e) : Leveled level d (.while cond body :: rest) e
  | forever {body rest : List Stmt} {d e : Nat} (hbody : Leveled level d body d)
      (h : Leveled level d rest e) : Leveled level d (.forever body :: rest) e
  | queue {l : Label} {rest : List Stmt} {d d' e : Nat} (hl : level l = d)
      (h : Leveled level d' rest e) : Leveled level d (.queue l :: rest) e
  | forceQueue {l : Label} {rest : List Stmt} {d d' e : Nat} (hl : level l = d)
      (h : Leveled level d' rest e) : Leveled level d (.forceQueue l :: rest) e
  | call {p : ProcId} {args : List Expr} {l : Label} {rest : List Stmt} {d d' e : Nat}
      (hl : level l = d) (h : Leveled level d' rest e) :
      Leveled level d (.call p args l :: rest) e
  | «return» {rest : List Stmt} {d d' e : Nat} (h : Leveled level d' rest e) :
      Leveled level d (.return :: rest) e
  | endCall {rest : List Stmt} {d d' e : Nat} (h : Leveled level d' rest e) :
      Leveled level d (.endCall :: rest) e

theorem Leveled.append {level : Label → Nat} {a b : List Stmt} {d e f : Nat}
    (ha : Leveled level d a e) (hb : Leveled level e b f) : Leveled level d (a ++ b) f := by
  induction ha with
  | nil => exact hb
  | steady hs _ ih => exact .steady hs (ih hb)
  | label hl _ ih => exact .label hl (ih hb)
  | save _ ih => exact .save (ih hb)
  | restore _ ih => exact .restore (ih hb)
  | branch hyes hno _ _ _ ih => exact .branch hyes hno (ih hb)
  | «repeat» hbody _ _ ih => exact .repeat hbody (ih hb)
  | «while» hbody _ _ ih => exact .while hbody (ih hb)
  | forever hbody _ _ ih => exact .forever hbody (ih hb)
  | queue hl _ ih => exact .queue hl (ih hb)
  | forceQueue hl _ ih => exact .forceQueue hl (ih hb)
  | call hl _ ih => exact .call hl (ih hb)
  | «return» _ ih => exact .return (ih hb)
  | endCall _ ih => exact .endCall (ih hb)

/-! ## 3. Fragments -/

/-- The label is one of those from a number up to another. -/
def Between (n n' l : Nat) : Prop := n ≤ l ∧ l < n'

/-- Statements that take the labels from one number up to another and place each of them once.
    They fit into a script, and save as many copies of the registers as they restore. -/
structure Fragment (procedures : List Procedure) (own : Option Procedure) (n : Nat)
    (code : List Stmt) (n' : Nat) : Prop where
  le : n ≤ n'
  nodup : (labels code).Nodup
  mem_labels : ∀ l : Nat, l ∈ labels code ↔ Between n n' l
  clear : Clear code
  fits : ∀ s ∈ nodes code, s.Fits procedures own (Between n n')
  /-- The levels of its own labels follow from the level at its start. -/
  leveled : ∀ d, ∃ level : Label → Nat, ∀ level',
    (∀ l : Nat, Between n n' l → level' l = level l) → Leveled level' d code d

namespace Fragment

variable {procedures : List Procedure} {own : Option Procedure} {n m n' : Nat}

theorem nil (n : Nat) : Fragment procedures own n [] n where
  le := Nat.le_refl n
  nodup := List.nodup_nil
  mem_labels l := by
    unfold Between
    refine ⟨fun h => absurd h List.not_mem_nil, fun h => ?_⟩
    omega
  clear := trivial
  fits := forall_nodes_nil
  leveled d := ⟨fun _ => 0, fun _ _ => .nil d⟩

/-- Two fragments that follow one another agree on one choice of levels. -/
theorem leveled_both {a b : List Stmt} (ha : Fragment procedures own n a m)
    (hb : Fragment procedures own m b n') (d : Nat) : ∃ level : Label → Nat, ∀ level',
      (∀ l : Nat, Between n n' l → level' l = level l) →
        Leveled level' d a d ∧ Leveled level' d b d := by
  have hle := ha.le
  have hle' := hb.le
  obtain ⟨la, hla⟩ := ha.leveled d
  obtain ⟨lb, hlb⟩ := hb.leveled d
  refine ⟨fun l => if l < m then la l else lb l, fun level h => ⟨?_, ?_⟩⟩
  · refine hla level fun l hl => ?_
    exact (h l ⟨hl.1, Nat.lt_of_lt_of_le hl.2 hle'⟩).trans (if_pos hl.2)
  · refine hlb level fun l hl => ?_
    exact (h l ⟨Nat.le_trans hle hl.1, hl.2⟩).trans (if_neg (Nat.not_lt.mpr hl.1))

/-- **Two fragments in a row are one.** -/
theorem append {a b : List Stmt} (ha : Fragment procedures own n a m)
    (hb : Fragment procedures own m b n') : Fragment procedures own n (a ++ b) n' := by
  have hle := ha.le
  have hle' := hb.le
  have hleft (l : Nat) (h : Between n m l) : Between n n' l := ⟨h.1, Nat.lt_of_lt_of_le h.2 hle'⟩
  have hright (l : Nat) (h : Between m n' l) : Between n n' l := ⟨Nat.le_trans hle h.1, h.2⟩
  refine ⟨Nat.le_trans hle hle', ?_, fun l => ?_, clear_append.mpr ⟨ha.clear, hb.clear⟩,
    forall_nodes_append.mpr ⟨fun s hs => (ha.fits s hs).mono hleft,
      fun s hs => (hb.fits s hs).mono hright⟩, fun d => ?_⟩
  · rw [labels_append]
    refine List.nodup_append.mpr ⟨ha.nodup, hb.nodup, fun x hx y hy hxy => ?_⟩
    have h1 : x < m := ((ha.mem_labels x).mp hx).2
    have h2 : m ≤ y := ((hb.mem_labels y).mp hy).1
    exact absurd hxy (Nat.ne_of_lt (Nat.lt_of_lt_of_le h1 h2))
  · rw [labels_append, List.mem_append, ha.mem_labels, hb.mem_labels]
    unfold Between
    omega
  · obtain ⟨level, h⟩ := leveled_both ha hb d
    exact ⟨level, fun level' h' => (h level' h').1.append (h level' h').2⟩

/-- A statement that names no label and holds none. -/
theorem single {s : Stmt} (hleaf : s.isLeaf = true) (hlabels : labelsAt s = [])
    (hfits : s.Fits procedures own fun _ => False)
    (hlevel : ∀ level d, Leveled level d [s] d) : Fragment procedures own n [s] n where
  le := Nat.le_refl n
  nodup := by
    rw [labels, labels, hlabels]
    exact List.nodup_nil
  mem_labels l := by
    rw [labels, labels, hlabels]
    exact (@nil procedures own n).mem_labels l
  clear := by
    refine ⟨?_, trivial⟩
    cases s with
    | branch | «repeat» | «while» | forever => cases hleaf
    | _ => trivial
  fits := forall_nodes_cons.mpr
    ⟨(forall_nodesOf_leaf hleaf).mpr (hfits.mono fun _ h => h.elim), forall_nodes_nil⟩
  leveled d := ⟨fun _ => 0, fun level _ => hlevel level d⟩

/-- A statement that does not pass control. -/
theorem steady {s : Stmt} (hs : s.isSteady = true)
    (h : ∀ e ∈ s.exprs, e.Within (Procedure.arity own)) :
    Fragment procedures own n [s] n := by
  refine single (isLeaf_of_isSteady hs) (labelsAt_steady hs) (Stmt.fits_of_isSteady hs h) ?_
  exact fun level d => .steady hs (.nil d)

/-- A branch between two fragments. -/
theorem branch {cond : Expr} {yes no : List Stmt}
    (hcond : cond.Within (Procedure.arity own))
    (hyes : Fragment procedures own n yes m) (hno : Fragment procedures own m no n') :
    Fragment procedures own n [.branch cond yes no] n' := by
  have hrow := hyes.append hno
  have hlabels : labels [.branch cond yes no] = labels (yes ++ no) := by
    rw [labels_append, labels, labels, labelsAt, List.append_nil]
  obtain ⟨hfyes, hfno⟩ := forall_nodes_append.mp hrow.fits
  refine ⟨hrow.le, hlabels ▸ hrow.nodup, fun l => hlabels ▸ hrow.mem_labels l,
    ⟨clear_append.mp hrow.clear, trivial⟩, ?_, fun d => ?_⟩
  · refine forall_nodes_cons.mpr ⟨forall_nodesOf_branch.mpr ?_, forall_nodes_nil⟩
    exact ⟨Stmt.fits_branch.mpr hcond, hfyes, hfno⟩
  · obtain ⟨level, h⟩ := leveled_both hyes hno d
    exact ⟨level, fun level' h' => .branch (h level' h').1 (h level' h').2 (.nil d)⟩

/-- A native loop around a fragment, which then has no labels. -/
theorem native {s : Stmt} {body : List Stmt} (hbody : Fragment procedures own n body n')
    (hlabels : labelsAt s = []) (hclear : ClearAt s) (hnone : Stmt.anyLabel body = false)
    (hnodes : nodesOf s = s :: nodes body) (hself : s.Fits procedures own (Between n n'))
    (hlevel : ∀ level d, Leveled level d body d → Leveled level d [s] d) :
    Fragment procedures own n [s] n' := by
  have hnil : labels [s] = [] := by rw [labels, labels, hlabels, List.append_nil]
  have hle := hbody.le
  have hn : n' ≤ n := by
    by_contra hlt
    have hmem : n ∈ labels body := (hbody.mem_labels n).mpr ⟨Nat.le_refl n, Nat.not_le.mp hlt⟩
    exact absurd hmem (labels_eq_nil body hnone ▸ List.not_mem_nil)
  refine ⟨hle, hnil ▸ List.nodup_nil, fun l => ?_, ⟨hclear, trivial⟩, ?_, fun d => ?_⟩
  · rw [hnil]
    refine ⟨fun h => absurd h List.not_mem_nil, fun h => ?_⟩
    exact absurd (Nat.lt_of_lt_of_le h.2 hn) (Nat.not_lt.mpr h.1)
  · refine forall_nodes_cons.mpr ⟨?_, forall_nodes_nil⟩
    rw [hnodes]
    exact List.forall_mem_cons.mpr ⟨hself, hbody.fits⟩
  · obtain ⟨level, h⟩ := hbody.leveled d
    exact ⟨level, fun level' h' => hlevel level' d (h level' h')⟩

/-- **A fragment with one more label around it**, at which the copies are those of its body. -/
theorem around {code body : List Stmt} {inner : Nat → Nat}
    (hbody : Fragment procedures own n body m) (hlabels : labels code = m :: labels body)
    (hclear : Clear code)
    (hfits : (∀ s ∈ nodes body, s.Fits procedures own (Between n (m + 1))) →
      ∀ s ∈ nodes code, s.Fits procedures own (Between n (m + 1)))
    (hlevel : ∀ level d, level m = inner d → Leveled level (inner d) body (inner d) →
      Leveled level d code d) : Fragment procedures own n code (m + 1) := by
  have hle := hbody.le
  refine ⟨Nat.le_succ_of_le hle, ?_, fun l => ?_, hclear, ?_, fun d => ?_⟩
  · rw [hlabels]
    refine List.nodup_cons.mpr ⟨fun h => ?_, hbody.nodup⟩
    exact Nat.lt_irrefl m ((hbody.mem_labels m).mp h).2
  · rw [hlabels, List.mem_cons, hbody.mem_labels]
    unfold Between
    omega
  · exact hfits fun s hs => (hbody.fits s hs).mono fun l hl => ⟨hl.1, Nat.lt_succ_of_lt hl.2⟩
  · obtain ⟨level, h⟩ := hbody.leveled (inner d)
    refine ⟨fun l => if l = m then inner d else level l, fun level' h' => ?_⟩
    refine hlevel level' d ((h' m ⟨hle, Nat.lt_succ_self m⟩).trans (if_pos rfl)) ?_
    refine h level' fun l hl => ?_
    exact (h' l ⟨hl.1, Nat.lt_succ_of_lt hl.2⟩).trans (if_neg (Nat.ne_of_lt hl.2))

/-! ## 4. Loops and waits -/

open Compile

theorem yieldingRepeat {times : Expr} {body : List Stmt}
    (htimes : times.Within (Procedure.arity own)) (hbody : Fragment procedures own n body m) :
    Fragment procedures own n (yieldingRepeat m times body) (m + 1) := by
  have hle := hbody.le
  refine @around _ _ _ _ _ _ (· + 1) hbody ?_ ?_ (fun hfits => ?_) fun level d hm hb => ?_
  · simp [Compile.yieldingRepeat, labels, labelsAt, labels_append]
  · simp [Compile.yieldingRepeat, Clear, ClearAt, clear_append, hbody.clear]
  · simpa [Compile.yieldingRepeat, nodes, nodesOf, nodes_append, or_imp, forall_and, Expr.Within,
      Expr.number, one, Between, htimes, hle] using hfits
  · exact .save (.steady rfl (.label hm (.branch (.steady rfl (hb.append (.queue hm (.nil d))))
      (.restore (.nil d)) (.nil d))))

theorem yieldingForever {body : List Stmt} (hbody : Fragment procedures own n body m) :
    Fragment procedures own n (yieldingForever m body) (m + 1) := by
  have hle := hbody.le
  refine @around _ _ _ _ _ _ id hbody ?_ ?_ (fun hfits => ?_) fun level d hm hb => ?_
  · simp [Compile.yieldingForever, labels, labelsAt, labels_append]
  · simp [Compile.yieldingForever, Clear, ClearAt, clear_append, hbody.clear]
  · simpa [Compile.yieldingForever, nodes, nodesOf, nodes_append, or_imp, forall_and, Between, hle]
      using hfits
  · exact .label hm (hb.append (.queue hm (.nil d)))

theorem yieldingWhile {cond : Expr} {body : List Stmt}
    (hcond : cond.Within (Procedure.arity own)) (hbody : Fragment procedures own n body m) :
    Fragment procedures own n (yieldingWhile m cond body) (m + 1) := by
  have hle := hbody.le
  refine @around _ _ _ _ _ _ id hbody ?_ ?_ (fun hfits => ?_) fun level d hm hb => ?_
  · simp [Compile.yieldingWhile, labels, labelsAt, labels_append]
  · simp [Compile.yieldingWhile, Clear, ClearAt, clear_append, hbody.clear]
  · simpa [Compile.yieldingWhile, nodes, nodesOf, nodes_append, or_imp, forall_and, Between, hle,
      hcond] using hfits
  · exact .label hm (.branch (hb.append (.queue hm (.nil d))) (.nil d) (.nil d))

theorem timedWait {duration : Expr} (h : duration.Within (Procedure.arity own)) :
    Fragment procedures own n (timedWait n duration) (n + 1) := by
  refine @around _ _ _ _ _ _ (· + 1) (nil n) rfl ?_ (fun _ => ?_) fun level d hm _ => ?_
  · simp [Compile.timedWait, Clear, ClearAt]
  · simp [Compile.timedWait, nodes, nodesOf, Expr.Within, Expr.number, stillWaiting, one, zero,
      Between, h]
  · exact .save (.steady rfl (.steady rfl (.steady rfl (.label hm (.branch
      (.steady rfl (.forceQueue hm (.nil (d + 1)))) (.nil (d + 1)) (.restore (.nil d)))))))

theorem glide {secs x y : Expr} (hsecs : secs.Within (Procedure.arity own))
    (hx : x.Within (Procedure.arity own)) (hy : y.Within (Procedure.arity own)) :
    Fragment procedures own n (glide n secs x y) (n + 1) := by
  refine @around _ _ _ _ _ _ (· + 1) (nil n) rfl ?_ (fun _ => ?_) fun level d hm _ => ?_
  · simp [Compile.glide, Clear, ClearAt]
  · have hstep : (Stmt.motion .glideStep).Fits procedures own (Between n (n + 1)) :=
      Stmt.fits_of_isSteady rfl fun _ he => absurd he List.not_mem_nil
    simp [Compile.glide, nodes, nodesOf, Expr.Within, stillWaiting, Between, hsecs, hx, hy, hstep]
  · exact .save (.steady rfl (.steady rfl (.steady rfl (.steady rfl (.steady rfl (.steady rfl
      (.label hm (.steady rfl (.branch (.forceQueue hm (.nil (d + 1))) (.nil (d + 1))
        (.restore (.nil d)))))))))))

theorem poll {pending : Expr} (h : pending.Within (Procedure.arity own)) :
    Fragment procedures own n (poll n pending) (n + 1) := by
  refine @around _ _ _ _ _ _ id (nil n) rfl ?_ (fun _ => ?_) fun level d hm _ => ?_
  · simp [Compile.poll, Clear, ClearAt]
  · simp [Compile.poll, nodes, nodesOf, Between, h]
  · exact .label hm (.branch (.forceQueue hm (.nil d)) (.nil d) (.nil d))

theorem request {ask : Stmt} {pending : Expr} {after : List Stmt} (hask : ask.isSteady = true)
    (hargs : ∀ e ∈ ask.exprs, e.Within (Procedure.arity own))
    (hpending : pending.Within (Procedure.arity own))
    (hafter : Fragment procedures own n after n) :
    Fragment procedures own n (request n ask pending after) (n + 1) := by
  have hself : ask.Fits procedures own (Between n (n + 1)) := Stmt.fits_of_isSteady hask hargs
  refine @around _ _ _ _ _ _ (· + 1) hafter ?_ ?_ (fun hfits => ?_) fun level d hm hb => ?_
  · simp [Compile.request, Compile.poll, labels, labelsAt, labels_append, labelsAt_steady hask]
  · simp [Compile.request, Compile.poll, Clear, ClearAt, clear_append, clearAt_steady hask,
      hafter.clear]
  · simpa [Compile.request, Compile.poll, nodes, nodesOf, nodes_append, or_imp, forall_and,
      nodesOf_leaf (isLeaf_of_isSteady hask), Between, hself, hpending] using hfits
  · exact .save (.steady hask (.label hm (.branch (.forceQueue hm (.nil (d + 1)))
      (.nil (d + 1)) (hb.append (.restore (.nil d))))))

theorem call {p : ProcId} {args : List Expr} {q : Procedure} (hq : procedures[p]? = some q)
    (hlen : args.length = q.params.length)
    (hargs : ∀ e ∈ args, e.Within (Procedure.arity own)) :
    Fragment procedures own n [.call p args n, .label n] (n + 1) := by
  refine @around _ _ _ _ _ _ id (nil n) rfl ⟨trivial, trivial, trivial⟩ (fun _ => ?_)
    fun level d hm _ => .call hm (.label hm (.nil d))
  simpa [nodes, nodesOf, Stmt.Fits, Stmt.exprs, Between, hq, hlen] using hargs

end Fragment

end Script

end BlockScript
