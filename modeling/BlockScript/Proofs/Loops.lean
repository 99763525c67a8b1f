import BlockScript.Proofs.Guises
import BlockScript.Proofs.Trampolines
import BlockScript.Proofs.Uncut

/-!
# Loops that are native and loops that yield

A loop becomes one native statement, or statements around a label to which the thread comes back
each time. The native loop keeps its count to itself, the other keeps it in a register and saves
the registers before. As long as the thread does not yield, both do the same.

* `Number.le_iff_not_lt`: the order of numbers, by which the two loops test their counts;
* `Compile.Loop.again`: what a loop that yields does at its label;
* `Act.Abreast`: a thread in the native loop, and one in the other, at the same place of the body;
* `Act.Abreast.answers`: what they do is answered by each other;
* `Act.agree_of_loops`: so they come to ends that are alike (`Act.Alike`), or to none.
-/

namespace BlockScript

/-! ## 1. The order of numbers -/

namespace Number

open Float.Model (UnpackedFloat)

/-- The order of two numbers, seen from the second. -/
theorem compare_swap (a b : UnpackedFloat) : b.compare a = (a.compare b).map Ordering.swap := by
  cases a with
  | notANumber => cases b <;> rfl
  | infinity s =>
    cases b with
    | notANumber | zero => cases s <;> rfl
    | infinity s' | finite s' => cases s <;> cases s' <;> rfl
  | zero s =>
    cases b with
    | notANumber | zero => rfl
    | infinity s' | finite s' => cases s' <;> rfl
  | finite s m e h =>
    cases b with
    | notANumber | zero => cases s <;> rfl
    | infinity s' => cases s <;> cases s' <;> rfl
    | finite s' m' e' h' =>
      have hswap : (compare e' e).then (compare m' m) =
          ((compare e e').then (compare m m')).swap := by
        rw [Ordering.swap_then, ← Std.OrientedCmp.eq_swap, ← Std.OrientedCmp.eq_swap]
      cases s with
      | negative =>
        cases s' with
        | negative => exact congrArg some (congrArg Ordering.swap hswap)
        | positive => rfl
      | positive =>
        cases s' with
        | negative => rfl
        | positive => exact congrArg some hswap

/-- Any two numbers compare. -/
theorem exists_compare {a b : UnpackedFloat} (ha : a.isNaN = false) (hb : b.isNaN = false) :
    ∃ o, a.compare b = some o := by
  cases a with
  | notANumber => cases ha
  | infinity s =>
    cases b with
    | notANumber => cases hb
    | infinity | zero | finite => cases s <;> exact ⟨_, rfl⟩
  | zero s =>
    cases b with
    | notANumber => cases hb
    | zero => exact ⟨_, rfl⟩
    | infinity s' | finite s' => cases s' <;> exact ⟨_, rfl⟩
  | finite s =>
    cases b with
    | notANumber => cases hb
    | zero => cases s <;> exact ⟨_, rfl⟩
    | infinity s' | finite s' => cases s <;> cases s' <;> exact ⟨_, rfl⟩

theorem lt_iff_compare {x y : Float} :
    x < y ↔ x.toModel.unpack.compare y.toModel.unpack = some .lt := by
  show Float.lt x y = true ↔ _
  rw [Float.lt, decide_eq_true_iff]
  show (x.toModel.unpack.compare y.toModel.unpack == some .lt) = true ↔ _
  rw [beq_iff_eq]

/-- **Of two numbers the one is at least the other unless it is less.** -/
theorem le_iff_not_lt {x y : Float} (hx : x.isNaN = false) (hy : y.isNaN = false) :
    y ≤ x ↔ ¬ x < y := by
  obtain ⟨o, ho⟩ : ∃ o, x.toModel.unpack.compare y.toModel.unpack = some o := exists_compare hx hy
  have hle : y ≤ x ↔ y.toModel.unpack.le x.toModel.unpack = true := by
    show Float.le y x = true ↔ _
    rw [Float.le, decide_eq_true_iff]
    rfl
  rw [hle, lt_iff_compare, UnpackedFloat.le, compare_swap, ho]
  cases o <;> decide

end Number

namespace Value

theorem isNaN_orZero (x : Float) : (orZero x).isNaN = false := by
  unfold orZero
  split
  · decide +kernel
  · rename_i h
    exact Bool.eq_false_iff.mpr h

theorem orZero_of_isNaN {x : Float} (h : x.isNaN = false) : orZero x = x :=
  if_neg (Bool.eq_false_iff.mp h)

/-- Numbers compare as numbers. -/
theorem lessThan_number {x y : Float} (hx : x.isNaN = false) (hy : y.isNaN = false) :
    (Value.number x).lessThan (.number y) = decide (x < y) := by
  have hoperand {z : Float} (hz : z.isNaN = false) : (Value.number z).operand = .numeric z :=
    if_neg (Bool.eq_false_iff.mp hz)
  unfold lessThan compare
  rw [hoperand hx, hoperand hy]
  unfold compareFloat
  by_cases h : x < y
  · simp only [h, if_true, decide_true]
    rfl
  · simp only [h, if_false, decide_false]
    split <;> rfl

end Value

namespace Compile.Loop

/-! ## 2. Loops that yield -/

/-- What a loop that yields does before its label. -/
def prepare : Loop → List Stmt
  | .counted times => [.save, .setRegister .count times]
  | .endless | .conditional _ => []

/-- What a loop that yields does at its label. -/
def again (l : Label) (body : List Stmt) : Loop → List Stmt
  | .counted _ =>
    [.branch (.not (.compare .less (.register .count) (.number 0.5)))
      (.setRegister .count (.binary .subtract (.register .count) one) :: (body ++ [.queue l]))
      [.restore]]
  | .endless => body ++ [.queue l]
  | .conditional cond => [.branch cond (body ++ [.queue l]) []]

theorem yielding_eq (loop : Loop) (l : Label) (body : List Stmt) :
    loop.yielding l body = loop.prepare ++ .label l :: loop.again l body := by
  cases loop <;> rfl

end Compile.Loop

namespace Act

variable {H : Type} [Host H]

/-- The test of a count that is kept in the register. -/
theorem exec_countLeft (t : Turn H) {rs : Registers} (saved : List Registers)
    (h : rs.count.isNaN = false) (yes no : List Stmt) :
    exec (.branch (.not (.compare .less (.register .count) (.number 0.5))) yes no)
        (t.dress rs saved) =
      .ok (.onward (if 0.5 ≤ rs.count then yes else no)) (t.dress rs saved) := by
  have hhalf : (0.5 : Float).isNaN = false := by decide +kernel
  have hless : (Value.number rs.count).lessThan (.number 0.5) = !decide (0.5 ≤ rs.count) := by
    rw [Value.lessThan_number h hhalf]
    by_cases hlt : rs.count < 0.5
    · have hle := mt (Number.le_iff_not_lt h hhalf).mp (not_not.mpr hlt)
      simp only [hlt, hle, decide_true, decide_false, Bool.not_false]
    · have hle := (Number.le_iff_not_lt h hhalf).mpr hlt
      simp only [hlt, hle, decide_true, decide_false, Bool.not_true]
  have heval : evalBool (.not (.compare .less (.register .count) (.number 0.5)))
      (t.dress rs saved) =
        .ok (!(Value.number rs.count).lessThan (.number 0.5)) (t.dress rs saved) := rfl
  rw [exec_branch, heval, hless, Bool.not_not]
  simp only [decide_eq_true_eq]

/-- One round less. -/
theorem exec_countDown (t : Turn H) {rs : Registers} (saved : List Registers)
    (h : rs.count.isNaN = false) :
    exec (.setRegister .count (.binary .subtract (.register .count) Compile.one))
        (t.dress rs saved) =
      .ok (.onward []) (t.dress (rs.set .count (Value.orZero (rs.count - 1.0))) saved) := by
  have hexec : exec (.setRegister .count (.binary .subtract (.register .count) Compile.one))
      (t.dress rs saved) = .ok (.onward []) (t.dress (rs.set .count
        (Value.orZero (Value.orZero rs.count - Value.orZero 1.0))) saved) := rfl
  have hone : Value.orZero 1.0 = 1.0 := Value.orZero_of_isNaN (by decide +kernel)
  rw [hexec, hone, Value.orZero_of_isNaN h]

/-- The registers as they are, and a copy of them. -/
theorem exec_save_dress (t : Turn H) :
    exec .save t = .ok (.onward [])
      (t.dress t.thread.registers (t.thread.registers :: t.thread.saveStack)) := by
  rw [exec_save, Thread.save_eq_dress]
  rfl

/-- The registers as they were. -/
theorem exec_restore_dress (t : Turn H) (rs : Registers) :
    exec .restore (t.dress rs (t.thread.registers :: t.thread.saveStack)) =
      .ok (.onward []) t := by
  have hback : (t.dress rs (t.thread.registers :: t.thread.saveStack)).thread.restore? =
      some t.thread :=
    (t.thread.restore?_dress rs _ _).trans (congrArg some t.thread.dress_self)
  rw [exec_restore, hback]
  rfl

end Act

/-! ## 3. Bodies without labels -/

namespace Stmt

theorem calm_of_isLight {s : Stmt} {arity : Nat} (hs : s.isLight = true)
    (h : ∀ e ∈ s.exprs, e.Supplied arity) : s.Calm := by
  refine ⟨?_, fun e he => (h e he).frees⟩
  cases s with
  | «return» | endCall | branch | «repeat» | «while» | forever => rfl
  | _ => exact hs

theorem Calm.not_label {s : Stmt} (h : s.Calm) (l : Label) : s ≠ .label l := by
  rintro rfl
  cases h.isCalm

/-- The count of a loop is another each time. -/
theorem Calm.repeat {times : Expr} {body : List Stmt} (h : (Stmt.repeat times body).Calm)
    (left : Float) : (Stmt.repeat (.number left) body).Calm :=
  ⟨h.isCalm, List.forall_mem_singleton.mpr trivial⟩

end Stmt

namespace Compile.Loop

variable {loop : Loop} {body : List Stmt}

theorem calm_native (h : ∀ e ∈ loop.exprs, e.Frees False) : (loop.native body).Calm := by
  cases loop <;> exact ⟨rfl, h⟩

theorem nodesOf_native (loop : Loop) (body : List Stmt) :
    Script.nodesOf (loop.native body) = loop.native body :: Script.nodes body := by
  cases loop <;> rfl

end Compile.Loop

theorem Stmt.anyLabel_append (a b : List Stmt) :
    Stmt.anyLabel (a ++ b) = (Stmt.anyLabel a || Stmt.anyLabel b) := by
  induction a with
  | nil => rfl
  | cons s rest ih => rw [List.cons_append, Stmt.anyLabel, Stmt.anyLabel, ih, Bool.or_assoc]

namespace Script

/-- **Code of the grammar that has no label is calm.** -/
theorem Emitted.calm {procedures : List Procedure} {own : Option Procedure} {n n' : Nat}
    {code : List Stmt} (h : Emitted procedures own n code n')
    (hnone : Stmt.anyLabel code = false) : ∀ s ∈ nodes code, s.Calm := by
  induction h with
  | nil => exact forall_nodes_nil
  | append _ _ ha hb =>
    rw [Stmt.anyLabel_append, Bool.or_eq_false_iff] at hnone
    exact forall_nodes_append.mpr ⟨ha hnone.1, hb hnone.2⟩
  | @light _ s hs h =>
    have hleaf : s.isLeaf = true := by
      cases s with
      | branch | «repeat» | «while» | forever => cases hs
      | _ => rfl
    exact forall_nodes_cons.mpr ⟨(forall_nodesOf_leaf hleaf).mpr (Stmt.calm_of_isLight hs h),
      forall_nodes_nil⟩
  | «return» | endCall =>
    exact forall_nodes_cons.mpr ⟨(forall_nodesOf_leaf rfl).mpr ⟨rfl, nofun⟩, forall_nodes_nil⟩
  | @branch _ _ _ cond yes no hcond _ _ hyes hno =>
    rw [Stmt.anyLabel, Stmt.anyLabel, Bool.or_false, Stmt.containsLabel,
      Bool.or_eq_false_iff] at hnone
    have hself : (Stmt.branch cond yes no).Calm :=
      ⟨rfl, List.forall_mem_singleton.mpr hcond.frees⟩
    exact forall_nodes_cons.mpr ⟨forall_nodesOf_branch.mpr ⟨hself, hyes hnone.1, hno hnone.2⟩,
      forall_nodes_nil⟩
  | native loop hloop _ hbody _ ih =>
    refine forall_nodes_cons.mpr ⟨?_, forall_nodes_nil⟩
    rw [Compile.Loop.nodesOf_native]
    exact List.forall_mem_cons.mpr
      ⟨Compile.Loop.calm_native fun e he => (hloop e he).frees, ih hbody⟩
  | @yielding _ m loop body =>
    rw [Compile.Loop.yielding_eq, Stmt.anyLabel_append] at hnone
    cases (Bool.or_eq_false_iff.mp (Bool.or_eq_false_iff.mp hnone).2).1
  | request hask => cases hask <;> cases hnone
  | timedWait | glide | poll | call => cases hnone

variable {s : Stmt} {a code : List Stmt}

/-- A branch is pruned in its sides. -/
theorem Pruned.of_branch {cond : Expr} {yes no : List Stmt}
    (h : Pruned (.branch cond yes no :: a) code) :
    ∃ yes' no' b, code = .branch cond yes' no' :: b ∧ Pruned yes yes' ∧ Pruned no no' ∧
      Pruned a b := by
  cases h with
  | same _ h => exact ⟨yes, no, _, rfl, .refl yes, .refl no, h⟩
  | branch _ hyes hno h => exact ⟨_, _, _, rfl, hyes, hno, h⟩
  | last hs => cases hs

/-- A statement that is not a label, a branch or a terminator stays as it is. -/
theorem Pruned.of_plain (h : Pruned (s :: a) code) (hterm : s.isTerminator = false)
    (hlabel : ∀ l, s ≠ .label l) (hbranch : ∀ cond yes no, s ≠ .branch cond yes no) :
    ∃ b, code = s :: b ∧ Pruned a b := by
  cases h with
  | label l => exact absurd rfl (hlabel l)
  | same _ h => exact ⟨_, rfl, h⟩
  | branch cond => exact absurd rfl (hbranch cond _ _)
  | last hs => cases hterm.symm.trans hs

end Script

variable {H : Type}

theorem Turn.dress_self (t : Turn H) :
    t.dress t.thread.registers t.thread.saveStack = t := by
  unfold Turn.dress
  rw [Thread.dress_self]

namespace Act

/-! ## 4. Ends that are alike -/

/-- The turns end alike. Only the registers of a thread that is over, and the copies of them that it
    saved, may be others. -/
inductive Alike : Result H Outcome → Result H Outcome → Prop
  | yielded (t : Turn H) : Alike (.ok .yielded t) (.ok .yielded t)
  | ended {o : Outcome} (ho : o ≠ .yielded) (t : Turn H) (rs : Registers)
      (saved : List Registers) : Alike (.ok o t) (.ok o (t.dress rs saved))
  | fault (e : Fault) (t : Turn H) (rs : Registers) (saved : List Registers) :
      Alike (.error e t) (.error e (t.dress rs saved))

theorem Alike.refl (r : Result H Outcome) : Alike r r := by
  cases r with
  | ok o t =>
    by_cases ho : o = .yielded
    · subst ho
      exact .yielded t
    · have hended := Alike.ended ho t t.thread.registers t.thread.saveStack
      rwa [t.dress_self] at hended
  | error e t =>
    have hfault := Alike.fault e t t.thread.registers t.thread.saveStack
    rwa [t.dress_self] at hfault

theorem Alike.finished {r r' : Result H Outcome} (h : Alike r r') : Finished r ↔ Finished r' := by
  cases h with
  | yielded | ended =>
    constructor
    · intro _ u hu
      cases hu
    · intro _ u hu
      cases hu
  | fault e t rs saved =>
    constructor
    · intro h u hu
      cases hu
      exact h t rfl
    · intro h u hu
      cases hu
      exact h _ rfl

/-! ## 5. Side by side -/

/-- Inside of a procedure a calm statement leaves the copies of the registers as they are. -/
theorem Onward.saveStack_of_calm {s : Stmt} {t t' : Thread} {code : List Stmt}
    (h : Onward s t code t') (hs : s.Calm) (hcalls : t.calls ≠ []) :
    s ≠ .endCall ∧ t'.saveStack = t.saveStack := by
  cases h with
  | save | restore => cases hs.isCalm
  | endCall hnil => exact absurd hnil hcalls
  | forever => exact ⟨nofun, rfl⟩
  | yes hk | no hk | «repeat» _ hk | «while» hk => exact ⟨nofun, hk.saveStack⟩
  | done _ hstack _ hk =>
    refine ⟨?_, hk.saveStack⟩
    rintro rfl
    cases hstack

theorem Departs.eq_of_calm {p : Program} {s : Stmt} {t t' : Thread} {l : Label}
    (h : Departs p s t l t') (hs : s.Calm) : s = .endCall := by
  cases h with
  | endCall => rfl
  | queue | forceQueue | call => cases hs.isCalm

/-- How a thread in a loop that yields looks, next to the same thread in the native loop. In a
    counted loop it has the rounds that are left in a register, and has saved the others; there none
    of the two waits for a request. -/
inductive Guise : Compile.Loop → Turn H → Turn H → Prop
  | counted (t : Turn H) {left : Float} {rs : Registers} (hcount : rs.count = Value.orZero left)
      (hticket : rs.ticket = none) (hwaits : t.thread.registers.ticket = none) :
      Guise (.counted (.number left)) t
        (t.dress rs (t.thread.registers :: t.thread.saveStack))
  | endless (t : Turn H) : Guise .endless t t
  | conditional (cond : Expr) (t : Turn H) : Guise (.conditional cond) t t

theorem Guise.exists_dress {loop : Compile.Loop} {t u : Turn H} (h : Guise loop t u) :
    ∃ rs saved, u = t.dress rs saved := by
  cases h with
  | counted => exact ⟨_, _, rfl⟩
  | endless | conditional => exact ⟨_, _, t.dress_self.symm⟩

variable [Host H]

/-- **A calm statement does the same in both loops**, and the threads look as before. -/
theorem Guise.exec {loop : Compile.Loop} {t u : Turn H} (h : Guise loop t u) {s : Stmt}
    (hs : s.Calm) (hend : s ≠ .endCall) :
    (∀ e t', Act.exec s t = .error e t' → ∃ rs saved,
      Act.exec s u = .error e (t'.dress rs saved)) ∧
    (∀ e t', Act.exec s t = .ok (.leave e) t' → ∃ rs saved,
      Act.exec s u = .ok (.leave e) (t'.dress rs saved)) ∧
    ∀ code t', Act.exec s t = .ok (.onward code) t' →
      t'.thread.saveStack = t.thread.saveStack → ∃ u',
        Act.exec s u = .ok (.onward code) u' ∧ Guise loop t' u' := by
  cases h with
  | @counted _ left rs hcount hticket hwaits =>
    have hunaware := unaware_exec (H := H) hs hend
    have hsame :=
      hunaware.apply_dress t hwaits rs (t.thread.registers :: t.thread.saveStack) hticket
    refine ⟨fun e t' hexec => ?_, fun e t' hexec => ?_, fun code t' hexec hsaved => ?_⟩
    · rw [hexec] at hsame
      exact ⟨_, _, hsame⟩
    · rw [hexec] at hsame
      exact ⟨_, _, hsame⟩
    · have hregisters : t'.thread.registers = t.thread.registers :=
        hunaware.quiet.of_ok hexec hwaits
      have hguise := Guise.counted t' hcount hticket (hregisters ▸ hwaits)
      rw [hregisters, hsaved] at hguise
      rw [hexec] at hsame
      exact ⟨_, hsame, hguise⟩
  | endless | conditional =>
    -- the two threads are one
    exact ⟨fun e t' hexec => ⟨_, _, t'.dress_self.symm ▸ hexec⟩,
      fun e t' hexec => ⟨_, _, t'.dress_self.symm ▸ hexec⟩,
      fun code t' hexec _ => ⟨t', hexec, by constructor⟩⟩

/-- A thread that does not yield and is inside of a procedure. At the label of a loop it finds the
    loop once more and what follows. -/
structure Unyielding (l : Label) (there : List Stmt) (t : Turn H) : Prop where
  warp : 0 < t.thread.warp
  calls : t.thread.calls ≠ []
  found : ∃ k, t.program.continuation? l = some k ∧ Script.Pruned there k.body

/-- A thread that goes on after a calm statement is as before. -/
theorem Unyielding.onward {l : Label} {there code : List Stmt} {s : Stmt} {t t' : Turn H}
    (h : Unyielding l there t) (hs : s.Calm) (hexec : exec s t = .ok (.onward code) t') :
    Unyielding l there t' ∧ t'.thread.saveStack = t.thread.saveStack := by
  have ho : Onward s t.thread code t'.thread := exec_onward hexec
  have hprogram : t'.program = t.program := ((keepsPlace_exec s).of_ok hexec).2
  refine ⟨⟨?_, ?_, ?_⟩, (ho.saveStack_of_calm hs h.calls).2⟩
  · rw [ho.tops.warp]
    exact h.warp
  · intro hnil
    refine h.calls (List.length_eq_zero_iff.mp ?_)
    rw [← ho.length_calls, hnil]
    rfl
  · rw [hprogram]
    exact h.found

/-- A thread in the native loop and one in the loop that yields, at the same place of the body. -/
inductive Abreast (l : Label) (body rest : List Stmt) : Config H → Config H → Prop
  | intro {loop : Compile.Loop} {code code' after junk : List Stmt} {t u : Turn H}
      (hloop : ∀ e ∈ loop.exprs, e.Frees False) (hcalm : ∀ s ∈ Script.nodes code, s.Calm)
      (hafter : Script.Pruned rest after) (hcode : Script.Pruned (code ++ .queue l :: junk) code')
      (ht : Unyielding l (loop.again l body ++ rest) t) (hu : Guise loop t u) :
      Abreast l body rest (code ++ loop.native body :: after, t) (code', u)

section Rounds

variable {l : Label} {body rest : List Stmt}

/-- What follows the loop is the same for both. -/
theorem lands_after {a b : List Stmt} {t : Turn H} (ha : Script.Pruned rest a)
    (hb : Script.Pruned rest b) (hcalls : t.thread.calls ≠ []) (r : Result H Outcome) :
    Lands (a, t) r ↔ Lands (b, t) r :=
  (lands_pruned_iff ha (.inl hcalls) r).symm.trans (lands_pruned_iff hb (.inl hcalls) r)

/-- What a pair of threads does at the start of a round: both leave the loop and come to the same
    ends, or both go on abreast. -/
def Rounds (l : Label) (body rest : List Stmt) (c c' : Config H) : Prop :=
  (∀ r, Lands c r ↔ Lands c' r) ∨
    ∃ d d', Relation.TransGen Moves c d ∧ Relation.ReflTransGen Moves c' d' ∧
      Abreast l body rest d d'

theorem exec_repeat {times : Expr} {t t' : Turn H} {x : Float}
    (h : evalNumber times t = .ok x t') (body : List Stmt) :
    exec (.repeat times body) t =
      .ok (.onward (if 0.5 ≤ x then body ++ [.repeat (.number (x - 1.0)) body] else [])) t' := by
  rw [exec, bind_apply, h]
  dsimp only
  split <;> rfl

theorem exec_while {cond : Expr} {t t' : Turn H} {b : Bool} (h : evalBool cond t = .ok b t')
    (body : List Stmt) :
    exec (.while cond body) t =
      .ok (.onward (if b then body ++ [.while cond body] else [])) t' := by
  rw [exec, bind_apply, h]
  cases b <;> rfl

/-- A calm statement, unless it ends a procedure, makes a thread leave only for good. -/
theorem label?_of_calm {s : Stmt} {e : Exit} {t t' : Turn H} (hs : s.Calm) (hend : s ≠ .endCall)
    (h : exec s t = .ok (.leave e) t') : e.label? = none := by
  cases hlabel : e.label? with
  | none => rfl
  | some k => exact absurd ((exec_departs h hlabel).eq_of_calm hs) hend

/-- A calm statement does the same where the code is pruned, unless it ends a procedure. -/
theorem exec_pruned {s : Stmt} {a code : List Stmt} (hs : s.Calm) (hend : s ≠ .endCall)
    (h : Script.Pruned (s :: a) code) (t : Turn H) :
    ∃ s' b, code = s' :: b ∧
      (∀ e t', exec s t = .error e t' → exec s' t = .error e t') ∧
      (∀ e t', exec s t = .ok (.leave e) t' → exec s' t = .ok (.leave e) t') ∧
      ∀ code₁ t', exec s t = .ok (.onward code₁) t' → ∃ code₁',
        exec s' t = .ok (.onward code₁') t' ∧ Script.Pruned (code₁ ++ a) (code₁' ++ b) := by
  cases h with
  | label k => exact absurd rfl (hs.not_label k)
  | same _ h =>
    exact ⟨_, _, rfl, fun _ _ => id, fun _ _ => id, fun code₁ _ hexec =>
      ⟨code₁, hexec, (Script.Pruned.refl code₁).append h⟩⟩
  | branch cond hyes hno h =>
    refine ⟨_, _, rfl, fun _ _ => exec_branch_error, fun _ _ hexec => ?_, fun _ _ hexec => ?_⟩
    · exact absurd hexec exec_branch_not_leave
    · rcases exec_branch_onward hexec with ⟨rfl, hexec'⟩ | ⟨rfl, hexec'⟩
      · exact ⟨_, hexec', hyes.append h⟩
      · exact ⟨_, hexec', hno.append h⟩
  | last hterm =>
    refine ⟨_, _, rfl, fun _ _ => id, fun _ _ => id, fun _ _ hexec => ?_⟩
    exact absurd (not_onward_of_isTerminator hterm hexec).1 hend

/-- A statement of the body. The thread in the loop that yields does the same as the other, whatever
    it has in its registers. -/
theorem answers_body {loop : Compile.Loop} {s : Stmt} {code code' after junk : List Stmt}
    {t u : Turn H} (hloop : ∀ e ∈ loop.exprs, e.Frees False)
    (hcalm : ∀ n ∈ Script.nodes (s :: code), n.Calm) (hafter : Script.Pruned rest after)
    (hcode : Script.Pruned (s :: code ++ .queue l :: junk) code')
    (ht : Unyielding l (loop.again l body ++ rest) t) (hu : Guise loop t u) :
    Answers Alike (Abreast l body rest) (s :: code ++ loop.native body :: after, t)
      (code', u) := by
  obtain ⟨hparts, hrest⟩ := Script.forall_nodes_cons.mp hcalm
  have hs : s.Calm := hparts s (Script.mem_nodesOf_self s)
  by_cases hend : s = .endCall
  · -- the procedure ends, and with it all that is in the registers
    subst hend
    obtain ⟨rs, saved, rfl⟩ := hu.exists_dress
    obtain ⟨b, rfl⟩ : ∃ b, code' = .endCall :: b := by
      cases hcode with
      | same | last => exact ⟨_, rfl⟩
    have hsame := exec_endCall_dress ht.calls rs saved
    obtain ⟨e, t', hleave⟩ : ∃ e t', exec .endCall t = .ok (.leave e) t' := by
      rw [exec_endCall]
      unfold Thread.endCall?
      cases hcalls : t.thread.calls with
      | nil => exact absurd hcalls ht.calls
      | cons => exact ⟨_, _, rfl⟩
    exact .join fun r => lands_iff_of_leave hleave (hsame.trans hleave) r
  obtain ⟨hfaults, hleaves, hgoes⟩ := hu.exec hs hend
  rw [List.cons_append] at hcode
  obtain ⟨s', b, rfl, herror, hleave, honward⟩ := exec_pruned hs hend hcode u
  cases hexec : exec s t with
  | error e t' =>
    obtain ⟨rs, saved, hsame⟩ := hfaults e t' hexec
    exact .halt ⟨0, .halt (.fault hexec _)⟩ ⟨0, .halt (.fault (herror _ _ hsame) b)⟩
      (.fault e t' rs saved)
  | ok control t' =>
    cases control with
    | leave e =>
      obtain ⟨rs, saved, hsame⟩ := hleaves e t' hexec
      have hexec' := hleave _ _ hsame
      have hlabel := label?_of_calm hs hend hexec
      cases e with
      | jump | yield => cases hlabel
      | stop =>
        exact .halt ⟨0, .halt (.leave hexec rfl _)⟩ ⟨0, .halt (.leave hexec' rfl b)⟩
          (.ended (o := .finished) nofun t' rs saved)
      | detached =>
        exact .halt ⟨0, .halt (.leave hexec rfl _)⟩ ⟨0, .halt (.leave hexec' rfl b)⟩
          (.ended (o := .detached) nofun t' rs saved)
    | onward code₁ =>
      obtain ⟨ht', hsaved⟩ := ht.onward hs hexec
      obtain ⟨u', hsame, hguise⟩ := hgoes code₁ t' hexec hsaved
      obtain ⟨code₁', hexec', hp⟩ := honward _ _ hsame
      rw [← List.append_assoc] at hp
      have hmove : Moves (s :: code ++ loop.native body :: after, t)
          ((code₁ ++ code) ++ loop.native body :: after, t') := by
        rw [List.append_assoc]
        exact .onward hexec _
      refine .move (.single hmove) (.single (.onward hexec' b)) ?_
      refine .intro hloop ?_ hafter hp ht' hguise
      exact Script.forall_nodes_append.mpr
        ⟨(exec_onward hexec).forall_nodes (fun _ left _ h => h.repeat left) hparts, hrest⟩

variable (hbody : ∀ s ∈ Script.nodes body, s.Calm)

include hbody

/-- A round of a counted loop. The native one evaluates the count, the other keeps it. -/
theorem rounds_counted {times : Expr} (htimes : times.Frees False) {t t' : Turn H} {x : Float}
    (hx : evalNumber times t = .ok x t') (hnumber : x.isNaN = false)
    (ht : Unyielding l ((Compile.Loop.counted times).again l body ++ rest) t)
    {after code' : List Stmt} (hafter : Script.Pruned rest after)
    (hcode : Script.Pruned ((Compile.Loop.counted times).again l body ++ rest) code')
    {rs : Registers} (hcount : rs.count = x) (hticket : rs.ticket = none)
    (hwaits : t'.thread.registers.ticket = none) :
    Rounds l body rest (.repeat times body :: after, t)
      (code', t'.dress rs (t'.thread.registers :: t'.thread.saveStack)) := by
  have hcalm : (Stmt.repeat times body).Calm := ⟨rfl, List.forall_mem_singleton.mpr htimes⟩
  have hnan : rs.count.isNaN = false := hcount ▸ hnumber
  have hnative := exec_repeat hx body
  obtain ⟨ht', -⟩ := ht.onward hcalm hnative
  obtain ⟨yes, no, b, rfl, hyes, hno, hb⟩ := Script.Pruned.of_branch (a := rest) hcode
  have htest := exec_countLeft t' (t'.thread.registers :: t'.thread.saveStack) hnan yes no
  rw [hcount] at htest
  by_cases hleft : 0.5 ≤ x
  · -- one round more: the count goes down, in the native loop and in the register
    rw [if_pos hleft] at hnative htest
    obtain ⟨b', rfl, hb'⟩ := hyes.of_plain rfl nofun nofun
    have hdown := exec_countDown t' (t'.thread.registers :: t'.thread.saveStack) hnan
    refine .inr ⟨_, _, .single (.onward hnative after),
      .head (.onward htest b) (.single (.onward hdown (b' ++ b))), ?_⟩
    have hguise : Guise (.counted (.number (x - 1.0))) t'
        (t'.dress (rs.set .count (Value.orZero (rs.count - 1.0)))
          (t'.thread.registers :: t'.thread.saveStack)) :=
      .counted t' (congrArg (fun y => Value.orZero (y - 1.0)) hcount) hticket hwaits
    have hp : Script.Pruned (body ++ .queue l :: rest) (b' ++ b) := by
      have happend := hb'.append hb
      rwa [List.append_assoc] at happend
    have hagain : Unyielding l
        ((Compile.Loop.counted (.number (x - 1.0))).again l body ++ rest) t' := ht'
    rw [List.append_assoc]
    exact .intro (List.forall_mem_singleton.mpr trivial) hbody hafter hp hagain hguise
  · -- no round is left
    rw [if_neg hleft] at hnative htest
    obtain ⟨b', rfl, hb'⟩ := hno.of_plain rfl nofun nofun
    cases hb'
    have hleave : Relation.ReflTransGen Moves (.repeat times body :: after, t) (after, t') :=
      .single (.onward hnative after)
    have hback := exec_restore_dress t' rs
    refine .inl fun r => (lands_iff_of_moves hleave r).trans ?_
    rw [lands_iff_of_moves (.head (.onward htest b) (.single (.onward hback b))) r]
    exact lands_after hafter hb ht'.calls r

/-- A round of a loop, abreast. -/
theorem rounds_of_guise {loop : Compile.Loop} (hloop : ∀ e ∈ loop.exprs, e.Frees False)
    {t u : Turn H} (ht : Unyielding l (loop.again l body ++ rest) t) (hu : Guise loop t u)
    {after code' : List Stmt} (hafter : Script.Pruned rest after)
    (hcode : Script.Pruned (loop.again l body ++ rest) code') :
    Rounds l body rest (loop.native body :: after, t) (code', u) := by
  cases hu with
  | @counted _ left rs hcount hticket hwaits =>
    have hx : evalNumber (.number left) t = .ok (Value.orZero left) t := rfl
    exact rounds_counted hbody (hloop _ List.mem_cons_self) hx (Value.isNaN_orZero left) ht hafter
      hcode hcount hticket hwaits
  | endless =>
    have hexec : exec (.forever body) t = .ok (.onward (body ++ [.forever body])) t := rfl
    refine .inr ⟨_, _, .single (.onward hexec after), .refl, ?_⟩
    have hp : Script.Pruned (body ++ [.queue l] ++ rest) code' := hcode
    rw [List.append_assoc] at hp ⊢
    exact .intro hloop hbody hafter hp ht (.endless t)
  | conditional cond =>
    have hcond : cond.Frees False := hloop cond List.mem_cons_self
    have hcalm : (Stmt.while cond body).Calm := ⟨rfl, List.forall_mem_singleton.mpr hcond⟩
    obtain ⟨yes, no, b, rfl, hyes, hno, hb⟩ := Script.Pruned.of_branch (a := rest) hcode
    have hbranch := exec_branch cond yes no t
    cases heval : evalBool cond t with
    | error e t' =>
      have hnative : exec (.while cond body) t = .error e t' := by
        rw [exec, bind_apply, heval]
      rw [heval] at hbranch
      exact .inl fun r => lands_iff_of_fault hnative hbranch r
    | ok holds t' =>
      have hnative := exec_while heval body
      obtain ⟨ht', -⟩ := ht.onward hcalm hnative
      rw [heval] at hbranch
      cases holds with
      | true =>
        refine .inr ⟨_, _, .single (.onward hnative after), .single (.onward hbranch b), ?_⟩
        have hp : Script.Pruned (body ++ .queue l :: rest) (yes ++ b) := by
          have happend := hyes.append hb
          rwa [List.append_assoc] at happend
        show Abreast l body rest ((body ++ [.while cond body]) ++ after, t') (yes ++ b, t')
        rw [List.append_assoc]
        exact .intro hloop hbody hafter hp ht' (.conditional cond t')
      | false =>
        cases hno
        have hleave : Relation.ReflTransGen Moves (.while cond body :: after, t) (after, t') :=
          .single (.onward hnative after)
        have hleave' : Relation.ReflTransGen Moves (.branch cond yes [] :: b, t) (b, t') :=
          .single (.onward hbranch b)
        refine .inl fun r => (lands_iff_of_moves hleave r).trans ?_
        exact (lands_after hafter hb ht'.calls r).trans (lands_iff_of_moves hleave' r).symm

/-- **Threads that are abreast answer each other.** -/
theorem Abreast.answers {c c' : Config H} (h : Abreast l body rest c c') :
    Answers Alike (Abreast l body rest) c c' := by
  obtain ⟨hloop, hcalm, hafter, hcode, ht, hu⟩ := h
  rename_i loop code code' after junk t u
  obtain ⟨rs, saved, rfl⟩ := hu.exists_dress
  cases code with
  | nil =>
    -- the body is done: the thread comes back to the label, and a round begins
    obtain ⟨k, hk, hthere⟩ := ht.found
    obtain ⟨b, rfl⟩ : ∃ b, code' = .queue l :: b := by
      cases hcode with
      | same | last => exact ⟨_, rfl⟩
    have hwarp : 0 < (t.dress rs saved).thread.warp := by
      show 0 < (t.thread.dress rs saved).warp
      rw [Thread.warp_dress]
      exact ht.warp
    have hqueue : exec (.queue l) (t.dress rs saved) =
        .ok (.leave (.jump l)) (t.dress rs saved) := by
      rw [exec, bind_apply, thread_apply]
      dsimp only
      rw [if_pos hwarp]
      rfl
    have hjump : Moves (.queue l :: b, t.dress rs saved) (k.body, t.dress rs saved) :=
      .jump hqueue hk b
    rcases rounds_of_guise hbody hloop ht hu hafter hthere with hjoin | ⟨d, d', hd, hd', habreast⟩
    · exact .join fun r => (hjoin r).trans (lands_iff_of_moves (.single hjump) r).symm
    · exact .move hd (.head' hjump hd') habreast
  | cons s code => exact answers_body hloop hcalm hafter hcode ht hu

end Rounds

/-! ## 6. From the start of the loop -/

section Start

variable {l : Label} {body rest : List Stmt} (hbody : ∀ s ∈ Script.nodes body, s.Calm)

/-- A label, if it has not been pruned, is passed. -/
theorem exists_passed {a code : List Stmt} (h : Script.Pruned (.label l :: a) code) (t : Turn H) :
    ∃ b, Script.Pruned a b ∧ Relation.ReflTransGen Moves (code, t) (b, t) := by
  cases h with
  | label _ h => exact ⟨code, h, .refl⟩
  | same _ h => exact ⟨_, h, .single (.onward (exec_label l t) _)⟩
  | last hs => cases hs

theorem isNaN_of_evalNumber {e : Expr} {t t' : Turn H} {x : Float}
    (h : evalNumber e t = .ok x t') : x.isNaN = false := by
  obtain ⟨v, t₁, -, hv⟩ := bind_eq_ok.mp h
  cases hv
  exact Value.isNaN_orZero _

include hbody

theorem agree_of_rounds {c c' : Config H} (h : Rounds l body rest c c') : Agree Alike c c' := by
  rcases h with hjoin | ⟨d, d', hd, hd', habreast⟩
  · exact .of_join Alike.refl hjoin
  · refine .of_moves hd.to_reflTransGen hd' ?_
    exact agree_of_answers Alike.refl (fun _ _ h => h.answers hbody) habreast

/-- The start of a counted loop that yields: it saves the registers and evaluates the count. -/
theorem agree_of_counted {times : Expr} (htimes : times.Frees False) {t : Turn H}
    (ht : Unyielding l ((Compile.Loop.counted times).again l body ++ rest) t)
    (hwaits : t.thread.registers.ticket = none)
    {after code' : List Stmt} (hafter : Script.Pruned rest after)
    (hcode : Script.Pruned ((Compile.Loop.counted times).yielding l body ++ rest) code') :
    Agree Alike (.repeat times body :: after, t) (code', t) := by
  have hcalm : (Stmt.repeat times body).Calm := ⟨rfl, List.forall_mem_singleton.mpr htimes⟩
  obtain ⟨b, rfl, hb⟩ := hcode.of_plain rfl nofun nofun
  obtain ⟨b', rfl, hb'⟩ := hb.of_plain rfl nofun nofun
  have hsave := exec_save_dress t
  have hunaware := unaware_evalNumber (H := H) htimes
  have hsame := hunaware.apply_dress t hwaits t.thread.registers
    (t.thread.registers :: t.thread.saveStack) hwaits
  cases heval : evalNumber times t with
  | error e t' =>
    rw [heval] at hsame
    have hnative : exec (.repeat times body) t = .error e t' := by
      rw [exec, bind_apply, heval]
    have hset : exec (.setRegister .count times)
        (t.dress t.thread.registers (t.thread.registers :: t.thread.saveStack)) =
          .error e (t'.dress t.thread.registers (t.thread.registers :: t.thread.saveStack)) := by
      rw [exec, bind_apply, hsame]
      rfl
    exact .of_halt ⟨0, .halt (.fault hnative after)⟩
      ⟨1, .move (.onward hsave _) (.halt (.fault hset b'))⟩ (.fault e t' _ _)
  | ok x t' =>
    rw [heval] at hsame
    have hset : exec (.setRegister .count times)
        (t.dress t.thread.registers (t.thread.registers :: t.thread.saveStack)) =
          .ok (.onward []) (t'.dress (t.thread.registers.set .count x)
            (t.thread.registers :: t.thread.saveStack)) := by
      rw [exec, bind_apply, hsame]
      rfl
    obtain ⟨-, hsaved⟩ := ht.onward hcalm (exec_repeat heval body)
    have hregisters : t'.thread.registers = t.thread.registers :=
      hunaware.quiet.of_ok heval hwaits
    rw [← hregisters] at hwaits
    obtain ⟨b₁, hb₁, hpass⟩ := exists_passed hb' (t'.dress (t.thread.registers.set .count x)
      (t.thread.registers :: t.thread.saveStack))
    refine .of_moves .refl (.head (.onward hsave _) (.head (.onward hset b') hpass)) ?_
    rw [← hregisters, ← hsaved]
    exact agree_of_rounds hbody (rounds_counted hbody htimes heval (isNaN_of_evalNumber heval) ht
      hafter hb₁ rfl hwaits hwaits)

/-- **A native loop and one that yields come to ends that are alike**, or to none, as long as the
    thread does not yield, and waits for no request where the loop is counted. -/
theorem agree_of_loops {loop : Compile.Loop} (hloop : ∀ e ∈ loop.exprs, e.Frees False)
    {t : Turn H} (ht : Unyielding l (loop.again l body ++ rest) t)
    (hwaits : ∀ times, loop = .counted times → t.thread.registers.ticket = none)
    {code code' : List Stmt} (hcode : Script.Pruned (loop.native body :: rest) code)
    (hcode' : Script.Pruned (loop.yielding l body ++ rest) code') :
    Agree Alike (code, t) (code', t) := by
  obtain ⟨after, rfl, hafter⟩ : ∃ after, code = loop.native body :: after ∧
      Script.Pruned rest after := by
    cases loop with
    | counted | endless | conditional => exact hcode.of_plain rfl nofun nofun
  cases loop with
  | counted times =>
    exact agree_of_counted hbody (hloop times List.mem_cons_self) ht (hwaits times rfl) hafter
      hcode'
  | endless =>
    obtain ⟨b, hb, hpass⟩ := exists_passed hcode' t
    exact .of_moves .refl hpass
      (agree_of_rounds hbody (rounds_of_guise hbody hloop ht (.endless t) hafter hb))
  | conditional cond =>
    obtain ⟨b, hb, hpass⟩ := exists_passed hcode' t
    exact .of_moves .refl hpass
      (agree_of_rounds hbody (rounds_of_guise hbody hloop ht (.conditional cond t) hafter hb))

end Start

end Act

end BlockScript
