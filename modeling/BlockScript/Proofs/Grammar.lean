import BlockScript.Proofs.Fragments

/-!
# What compiled code looks like

Every block becomes one of a few kinds of statements, and a stack of blocks becomes these in a row.
The kinds are the rules of a grammar, so that what compiled code does can be shown rule by rule.

* `Expr.Supplied`: an expression that blocks can say, which therefore reads no register;
* `Compile.Loop`: a loop, which can be native or yield;
* `Script.Emitted`: the grammar; each of its rules gives a fragment (`Emitted.fragment`).
-/

namespace BlockScript

/-! ## 1. Expressions -/

/-- The expression reads no register, and no argument but the first so many. -/
def Expr.Supplied (arity : Nat) : Expr → Prop
  | .register _ | .groupRunning | .ticketPending => False
  | .argument i => i < arity
  | .listItem _ e | .listIndexOf _ e | .listContains _ e | .not e | .math _ e | .round e
  | .length e | .keyPressed e | .touching e | .attribute _ e | .cast _ e => e.Supplied arity
  | .binary _ a b | .compare _ a b | .and a b | .or a b | .join a b | .letterOf a b
  | .contains a b | .random a b => a.Supplied arity ∧ b.Supplied arity
  | _ => True

namespace Expr.Supplied

variable {arity : Nat} {e : Expr}

theorem within_and_frees (h : e.Supplied arity) : e.Within arity ∧ e.Frees False := by
  induction e with
  | register | groupRunning | ticketPending => exact h.elim
  | argument => exact ⟨h, trivial⟩
  | listItem _ _ ih | listIndexOf _ _ ih | listContains _ _ ih | not _ ih | math _ _ ih
  | round _ ih | length _ ih | keyPressed _ ih | touching _ ih | «attribute» _ _ ih
  | cast _ _ ih => exact ih h
  | binary _ _ _ ha hb | compare _ _ _ ha hb | and _ _ ha hb | or _ _ ha hb | join _ _ ha hb
  | letterOf _ _ ha hb | contains _ _ ha hb | random _ _ ha hb =>
    exact ⟨⟨(ha h.1).1, (hb h.2).1⟩, (ha h.1).2, (hb h.2).2⟩
  | _ => exact ⟨trivial, trivial⟩

theorem within (h : e.Supplied arity) : e.Within arity := h.within_and_frees.1

theorem frees (h : e.Supplied arity) : e.Frees False := h.within_and_frees.2

end Expr.Supplied

namespace Compile

/-! ## 2. Loops and requests -/

/-- A loop, given its body. -/
inductive Loop
  /-- A number of times. -/
  | counted (times : Expr)
  /-- For ever. -/
  | endless
  /-- As long as a condition holds. -/
  | conditional (cond : Expr)

namespace Loop

/-- The expressions of the loop. -/
def exprs : Loop → List Expr
  | .counted times => [times]
  | .endless => []
  | .conditional cond => [cond]

/-- The loop as one statement, which never yields. -/
def native (body : List Stmt) : Loop → Stmt
  | .counted times => .repeat times body
  | .endless => .forever body
  | .conditional cond => .while cond body

/-- The loop as statements around a label, where it goes on each time. -/
def yielding (l : Label) (body : List Stmt) : Loop → List Stmt
  | .counted times => yieldingRepeat l times body
  | .endless => yieldingForever l body
  | .conditional cond => yieldingWhile l cond body

end Loop

/-- What a request asks, what is pending until it is answered, and what is done then. -/
inductive Asks : Stmt → Expr → List Stmt → Prop
  | broadcast (message : Expr) : Asks (.broadcast message true) .groupRunning []
  | switchBackdrop (backdrop : Expr) : Asks (.switchBackdrop backdrop true) .groupRunning []
  | sound (sound : Expr) : Asks (.sound (.playUntilDone sound)) .ticketPending []
  | question (question : Expr) : Asks (.ask question) .ticketPending [.collectAnswer]

end Compile

namespace Script

open Compile (Loop Asks timedWait glide poll request)

/-! ## 3. The grammar -/

/-- What blocks become. The rules also say which labels are taken, from one number up to another,
    and which procedure the script defines. -/
inductive Emitted (procedures : List Procedure) (own : Option Procedure) :
    Nat → List Stmt → Nat → Prop
  | nil (n : Nat) : Emitted procedures own n [] n
  | append {n m n' : Nat} {a b : List Stmt} (ha : Emitted procedures own n a m)
      (hb : Emitted procedures own m b n') : Emitted procedures own n (a ++ b) n'
  | light {n : Nat} {s : Stmt} (hs : s.isLight = true)
      (h : ∀ e ∈ s.exprs, e.Supplied (Procedure.arity own)) : Emitted procedures own n [s] n
  | «return» (n : Nat) : Emitted procedures own n [.return] n
  | endCall (h : own.isSome = true) (n : Nat) : Emitted procedures own n [.endCall] n
  | branch {n m n' : Nat} {cond : Expr} {yes no : List Stmt}
      (hcond : cond.Supplied (Procedure.arity own)) (hyes : Emitted procedures own n yes m)
      (hno : Emitted procedures own m no n') : Emitted procedures own n [.branch cond yes no] n'
  /-- In a procedure that runs without yielding, a loop around no label. -/
  | native {n n' : Nat} (loop : Loop) {body : List Stmt}
      (hloop : ∀ e ∈ loop.exprs, e.Supplied (Procedure.arity own))
      (hwarp : ∃ q, own = some q ∧ q.warp = true) (hnone : Stmt.anyLabel body = false)
      (hbody : Emitted procedures own n body n') : Emitted procedures own n [loop.native body] n'
  | yielding {n m : Nat} (loop : Loop) {body : List Stmt}
      (hloop : ∀ e ∈ loop.exprs, e.Supplied (Procedure.arity own))
      (hbody : Emitted procedures own n body m) :
      Emitted procedures own n (loop.yielding m body) (m + 1)
  | timedWait {n : Nat} {duration : Expr} (h : duration.Supplied (Procedure.arity own)) :
      Emitted procedures own n (timedWait n duration) (n + 1)
  | glide {n : Nat} {secs x y : Expr} (hsecs : secs.Supplied (Procedure.arity own))
      (hx : x.Supplied (Procedure.arity own)) (hy : y.Supplied (Procedure.arity own)) :
      Emitted procedures own n (glide n secs x y) (n + 1)
  | poll {n : Nat} {cond : Expr} (h : cond.Supplied (Procedure.arity own)) :
      Emitted procedures own n (poll n cond) (n + 1)
  | request {n : Nat} {ask : Stmt} {pending : Expr} {after : List Stmt}
      (hask : Asks ask pending after)
      (hargs : ∀ e ∈ ask.exprs, e.Supplied (Procedure.arity own)) :
      Emitted procedures own n (request n ask pending after) (n + 1)
  | call {n : Nat} {p : ProcId} {args : List Expr} {q : Procedure}
      (hq : procedures[p]? = some q) (hlen : args.length = q.params.length)
      (hargs : ∀ e ∈ args, e.Supplied (Procedure.arity own)) :
      Emitted procedures own n [.call p args n, .label n] (n + 1)

theorem isSteady_of_isLight {s : Stmt} (h : s.isLight = true) : s.isSteady = true := by
  cases s with
  | label | save | restore | branch | «repeat» | «while» | forever | «return» | endCall | queue
  | forceQueue | call => cases h
  | _ => rfl

namespace Fragment

variable {procedures : List Procedure} {own : Option Procedure} {n m n' : Nat}

theorem «return» (n : Nat) : Fragment procedures own n [.return] n :=
  .single rfl rfl Stmt.fits_return fun _ d => .return (.nil d)

theorem endCall (h : own.isSome = true) (n : Nat) : Fragment procedures own n [.endCall] n :=
  .single rfl rfl ⟨fun _ he => absurd he List.not_mem_nil, h⟩ fun _ d => .endCall (.nil d)

/-- A native loop around a fragment. -/
theorem nativeLoop {loop : Loop} {body : List Stmt}
    (hloop : ∀ e ∈ loop.exprs, e.Supplied (Procedure.arity own))
    (hwarp : ∃ q, own = some q ∧ q.warp = true) (hnone : Stmt.anyLabel body = false)
    (hbody : Fragment procedures own n body n') :
    Fragment procedures own n [loop.native body] n' := by
  have hexprs : ∀ e ∈ loop.exprs, e.Within (Procedure.arity own) := fun e he =>
    (hloop e he).within
  cases loop with
  | counted times =>
    exact .native hbody rfl hnone hnone rfl ⟨hexprs, hwarp⟩ fun _ d h => .repeat h (.nil d)
  | endless =>
    exact .native hbody rfl hnone hnone rfl ⟨hexprs, hwarp⟩ fun _ d h => .forever h (.nil d)
  | conditional cond =>
    exact .native hbody rfl hnone hnone rfl ⟨hexprs, hwarp⟩ fun _ d h => .while h (.nil d)

/-- A loop that yields, around a fragment. -/
theorem yieldingLoop {loop : Loop} {body : List Stmt}
    (hloop : ∀ e ∈ loop.exprs, e.Supplied (Procedure.arity own))
    (hbody : Fragment procedures own n body m) :
    Fragment procedures own n (loop.yielding m body) (m + 1) := by
  cases loop with
  | counted times => exact .yieldingRepeat (hloop times List.mem_cons_self).within hbody
  | endless => exact .yieldingForever hbody
  | conditional cond => exact .yieldingWhile (hloop cond List.mem_cons_self).within hbody

/-- A request and the wait for its answer. -/
theorem asking {ask : Stmt} {pending : Expr} {after : List Stmt} (hask : Asks ask pending after)
    (hargs : ∀ e ∈ ask.exprs, e.Supplied (Procedure.arity own)) :
    Fragment procedures own n (Compile.request n ask pending after) (n + 1) := by
  have hexprs : ∀ e ∈ ask.exprs, e.Within (Procedure.arity own) := fun e he =>
    (hargs e he).within
  cases hask with
  | broadcast | switchBackdrop | sound => exact .request rfl hexprs trivial (.nil n)
  | question =>
    exact .request rfl hexprs trivial (.steady rfl fun _ he => absurd he List.not_mem_nil)

end Fragment

/-- **What blocks become is a fragment of a script.** -/
theorem Emitted.fragment {procedures : List Procedure} {own : Option Procedure} {n n' : Nat}
    {code : List Stmt} (h : Emitted procedures own n code n') :
    Fragment procedures own n code n' := by
  induction h with
  | nil n => exact .nil n
  | append _ _ ha hb => exact ha.append hb
  | light hs h => exact .steady (isSteady_of_isLight hs) fun e he => (h e he).within
  | «return» n => exact .return n
  | endCall h n => exact .endCall h n
  | branch hcond _ _ hyes hno => exact .branch hcond.within hyes hno
  | native loop hloop hwarp hnone _ hbody => exact .nativeLoop hloop hwarp hnone hbody
  | yielding loop hloop _ hbody => exact .yieldingLoop hloop hbody
  | timedWait h => exact .timedWait h.within
  | glide hsecs hx hy => exact .glide hsecs.within hx.within hy.within
  | poll h => exact .poll h.within
  | request hask hargs => exact .asking hask hargs
  | call hq hlen hargs => exact .call hq hlen fun e he => (hargs e he).within

end Script

end BlockScript
