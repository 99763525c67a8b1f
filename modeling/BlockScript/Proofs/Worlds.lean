import BlockScript.Proofs.Safety
import BlockScript.Proofs.Seats
import Mathlib.Logic.Relation

/-!
# A project at work, step by step

What is asked of a machine takes many small steps: each request, each visit of a seat, each
statement is one. Here these steps are a relation, so that something can be said about every state
that a project is ever in, also in the middle of a turn.

* `World`: a state of a project at work, between two requests or in the middle of one;
* `World.Step`: one step; which statements a thread finds at a label, and whether the clock may be
  replaced, is left open (`Rules`);
* `World.Arises`: the states that a project comes to;
* `World.reaches_follow`: a turn is done in such steps;
* `World.reaches_perform`: so is whatever is asked of a machine.
-/

namespace BlockScript

/-! ## 1. Steps -/

/-- The rules by which a project is at work. -/
structure Rules where
  /-- Which statements a thread finds at a label, given the program of its target. -/
  finds : Program → Label → List Stmt → Prop
  /-- Whether the machine may be given another clock. -/
  clocks : Prop := True

/-- A thread finds the continuation at the label. -/
def Rules.cut : Rules where
  finds p l code := ∃ c, p.continuation? l = some c ∧ c.body = code

/-- So it does, and the clock stays the same. -/
def Rules.steady : Rules := { Rules.cut with clocks := False }

/-- A project at work. -/
inductive World (H : Type)
  /-- Nothing is being done. -/
  | rest (m : Machine H)
  /-- A pass that began with so many seats has these left to visit. -/
  | pass (m : Machine H) (length : Nat) (seats : List Nat)
  /-- In a pass, a thread is at work: it came to a label last, and has these statements left. -/
  | turn (t : Turn H) (l : Label) (code : List Stmt) (length : Nat) (seats : List Nat)

/-- What is in the seat of a thread that leaves its turn. -/
def Exit.seat? (t : Thread) : Exit → Option Seat
  | .jump _ => none
  | .yield l => some (.waiting { t with continuation := l })
  | .stop | .detached => some .empty

namespace World

variable {H : Type}

/-- The machine. -/
def machine : World H → Machine H
  | .rest m => m
  | .pass m _ _ => m
  | .turn t _ _ _ _ => t.machine

/-- The turn that is under way. -/
def turn? : World H → Option (Turn H)
  | .turn t _ _ _ _ => some t
  | _ => none

variable [Host H] (R : Rules)

/-- A turn fails: by a fault, at a label that is not there, or because its steps are used up. -/
inductive Fails : Turn H → List Stmt → Turn H → Prop
  | fault {s : Stmt} {t t' : Turn H} {rest : List Stmt} {e : Fault}
      (h : Act.exec s t = .error e t') : Fails t (s :: rest) t'
  | stray {s : Stmt} {t t' : Turn H} {rest : List Stmt} {l : Label}
      (h : Act.exec s t = .ok (.leave (.jump l)) t') (hl : ∀ code, ¬ R.finds t'.program l code) :
      Fails t (s :: rest) t'
  | exhausted (t : Turn H) (code : List Stmt) : Fails t code t

/-- One step of a project at work. -/
inductive Step : World H → World H → Prop
  /-- Something is asked for that is done at once. -/
  | request {r : Request H} {f : Machine H → Machine H} (h : r.change? = some f) (m : Machine H) :
      Step (.rest m) (.rest (f m))
  /-- The machine is given another clock. -/
  | setClock (hR : R.clocks) (m : Machine H) (c : Clock) : Step (.rest m) (.rest (m.setClock c))
  /-- A frame begins with a pass. -/
  | start (m : Machine H) :
      Step (.rest m)
        (.pass { m with visual := false } m.queue.length (List.range m.queue.length))
  /-- A frame has no time for a pass. -/
  | lapse (m : Machine H) :
      Step (.rest m) (.rest { m with clock := m.clock.advance, frame := m.frame + 1 })
  /-- In a seat nobody is ready. -/
  | skip {m : Machine H} {i : Nat} (h : m.ready? i = none) (length : Nat) (seats : List Nat) :
      Step (.pass m length (i :: seats)) (.pass m length seats)
  /-- A thread leaves its seat for its turn. -/
  | enter {m : Machine H} {i : Nat} {t : Thread} {target : Target} {code : List Stmt}
      (h : m.ready? i = some t) (ht : m.target? t.target = some target)
      (hc : R.finds target.program t.continuation code) (length : Nat) (seats : List Nat) :
      Step (.pass m length (i :: seats))
        (.turn ⟨m.lend i t, t, i, target.program⟩ t.continuation code length seats)
  /-- A thread has no target, or nothing to resume. -/
  | refuse {m : Machine H} {i : Nat} {t : Thread} (h : m.ready? i = some t)
      (hno : ∀ target code, m.target? t.target = some target →
        ¬ R.finds target.program t.continuation code) (length : Nat) (seats : List Nat) :
      Step (.pass m length (i :: seats)) (.rest ((m.lend i t).settle i .empty))
  /-- The thread goes on. -/
  | onward {s : Stmt} {t t' : Turn H} {code : List Stmt}
      (h : Act.exec s t = .ok (.onward code) t') (l : Label) (rest : List Stmt) (length : Nat)
      (seats : List Nat) :
      Step (.turn t l (s :: rest) length seats) (.turn t' l (code ++ rest) length seats)
  /-- The thread goes to a label at once. -/
  | jump {s : Stmt} {t t' : Turn H} {k : Label} {code : List Stmt}
      (h : Act.exec s t = .ok (.leave (.jump k)) t') (hc : R.finds t'.program k code) (l : Label)
      (rest : List Stmt) (length : Nat) (seats : List Nat) :
      Step (.turn t l (s :: rest) length seats) (.turn t' k code length seats)
  /-- The thread leaves its turn. -/
  | leave {s : Stmt} {t t' : Turn H} {e : Exit} {seat : Seat}
      (h : Act.exec s t = .ok (.leave e) t') (he : e.seat? t'.thread = some seat) (l : Label)
      (rest : List Stmt) (length : Nat) (seats : List Nat) :
      Step (.turn t l (s :: rest) length seats)
        (.pass (t'.machine.settle t'.seat seat) length seats)
  /-- The thread comes to its end. -/
  | finish (t : Turn H) (l : Label) (length : Nat) (seats : List Nat) :
      Step (.turn t l [] length seats) (.pass (t.machine.settle t.seat .empty) length seats)
  | fail {t t' : Turn H} {code : List Stmt} (h : Fails R t code t') (l : Label) (length : Nat)
      (seats : List Nat) :
      Step (.turn t l code length seats) (.rest (t'.machine.settle t'.seat .empty))
  /-- A pass that added threads is followed by another. -/
  | again {m : Machine H} {length : Nat} (hadded : length < m.queue.length)
      (hmay : m.endPass.mayRepeat = true) :
      Step (.pass m length [])
        (.pass { m.endPass with visual := false } m.endPass.queue.length
          (List.range m.endPass.queue.length))
  /-- A frame ends with a pass. -/
  | close (m : Machine H) (length : Nat) :
      Step (.pass m length [])
        (.rest { m.endPass with clock := m.clock.advance, frame := m.frame + 1 })

/-- The states that a project comes to from a state. -/
abbrev Reaches : World H → World H → Prop := Relation.ReflTransGen (Step R)

/-- The states that a project comes to with the machine that it was loaded into, whatever clocks it
    is given. -/
abbrev Arises (m : Machine H) : World H → Prop := Reaches .cut (.rest m)

variable {R} in
theorem Step.greenFlag (m : Machine H) : Step R (.rest m) (.rest m.greenFlag.2) :=
  .request (r := .greenFlag) rfl m

end World

/-! ## 2. Whatever is done is done in steps -/

namespace World

variable {H : Type} [Host H] (length : Nat) (seats : List Nat)

/-- How a thread came to the end of its statements. -/
inductive Blocks (w : World H) (l : Label) : EStateM.Result Fault (Turn H) (Option Exit) → Prop
  | through {t : Turn H} (h : Reaches .cut w (.turn t l [] length seats)) : Blocks w l (.ok none t)
  | left {t₁ t : Turn H} {s : Stmt} {rest : List Stmt} {e : Exit}
      (h : Reaches .cut w (.turn t₁ l (s :: rest) length seats))
      (hexec : Act.exec s t₁ = .ok (.leave e) t) : Blocks w l (.ok (some e) t)
  | failed {t : Turn H} {e : Fault}
      (h : Reaches .cut w (.rest (t.machine.settle t.seat .empty))) : Blocks w l (.error e t)

/-- A thread that executes statements goes through them, or leaves them at some statement. -/
theorem reaches_block (steps : Nat) (code : List Stmt) (t : Turn H) (l : Label) :
    Blocks length seats (.turn t l code length seats) l (Act.block steps code t) := by
  induction steps generalizing code t with
  | zero => exact .failed (.single (.fail (.exhausted t code) l length seats))
  | succ steps ih =>
    cases code with
    | nil => exact .through .refl
    | cons s rest =>
      simp only [Act.block, Act.bind_apply]
      cases hexec : Act.exec s t with
      | error e t' => exact .failed (.single (.fail (.fault hexec) l length seats))
      | ok c t' =>
        cases c with
        | leave e => exact .left .refl hexec
        | onward code =>
          have hstep : Step .cut (.turn t l (s :: rest) length seats)
              (.turn t' l (code ++ rest) length seats) := .onward hexec l rest length seats
          have hrest := ih (code ++ rest) t'
          dsimp only
          generalize Act.block steps (code ++ rest) t' = r at hrest ⊢
          cases hrest with
          | through hreach => exact .through (.head hstep hreach)
          | left hreach hleave => exact .left (.head hstep hreach) hleave
          | failed hreach => exact .failed (.head hstep hreach)

/-- The state after a turn. -/
def afterTurn (length : Nat) (seats : List Nat) : EStateM.Result Fault (Turn H) Outcome → World H
  | .ok outcome t =>
    .pass (t.machine.settle t.seat (Machine.seatAfter t.thread outcome)) length seats
  | .error _ t => .rest (t.machine.settle t.seat .empty)

/-- **A turn is done in steps.** -/
theorem reaches_follow (steps : Nat) (code : List Stmt) (t : Turn H) (l : Label) :
    Reaches .cut (.turn t l code length seats)
      (afterTurn length seats (Act.follow steps code t)) := by
  induction steps generalizing code t l with
  | zero => exact .single (.fail (.exhausted t code) l length seats)
  | succ steps ih =>
    have hblock := reaches_block length seats (steps + 1) code t l
    simp only [Act.follow, Act.bind_apply]
    generalize Act.block (steps + 1) code t = r at hblock ⊢
    cases hblock with
    | failed hreach => exact hreach
    | @through t' hreach => exact .tail hreach (.finish t' l length seats)
    | @left t₁ t' s rest e hreach hleave =>
      cases e with
      | stop => exact .tail hreach (.leave hleave rfl l rest length seats)
      | detached => exact .tail hreach (.leave hleave rfl l rest length seats)
      | yield k => exact .tail hreach (.leave hleave rfl l rest length seats)
      | jump k =>
        dsimp only
        rw [Act.bind_apply]
        cases hc : t'.program.continuation? k with
        | some c =>
          rw [Act.codeAt_apply hc]
          have hjump : Step .cut (.turn t₁ l (s :: rest) length seats)
              (.turn t' k c.body length seats) :=
            .jump (R := .cut) hleave ⟨c, hc, rfl⟩ l rest length seats
          exact (hreach.tail hjump).trans (ih c.body t' k)
        | none =>
          have hcode : Act.codeAt k t' = .error (.runtime (.noContinuation k)) t' := by
            simp only [Act.codeAt, Act.bind_apply, Act.get_apply, hc]
            rfl
          rw [hcode]
          refine .tail hreach (.fail (.stray hleave ?_) l length seats)
          rintro code ⟨c, hc', -⟩
          rw [hc] at hc'
          cases hc'

end World

namespace Act

variable {H : Type}

theorem keepsPlace_codeAt (l : Label) : KeepsPlace (codeAt (H := H) l) := by
  refine .bind (fun _ => ⟨rfl, rfl⟩) fun t => ?_
  split <;> exact fun _ => ⟨rfl, rfl⟩

variable [Host H]

theorem keepsPlace_block (steps : Nat) (code : List Stmt) :
    KeepsPlace (block (H := H) steps code) := by
  induction steps generalizing code with
  | zero => exact fun _ => ⟨rfl, rfl⟩
  | succ steps ih =>
    cases code with
    | nil => exact keepsPlace_pure _
    | cons s rest =>
      refine .bind (keepsPlace_exec s) fun c => ?_
      cases c with
      | onward code => exact ih _
      | leave e => exact keepsPlace_pure _

theorem keepsPlace_follow (steps : Nat) (code : List Stmt) :
    KeepsPlace (follow (H := H) steps code) := by
  induction steps generalizing code with
  | zero => exact fun _ => ⟨rfl, rfl⟩
  | succ steps ih =>
    refine .bind (keepsPlace_block _ code) fun e => ?_
    match e with
    | none | some .stop | some .detached => exact keepsPlace_pure _
    | some (.yield l) => exact .bind (keepsPlace_modifyThread _) fun _ => keepsPlace_pure _
    | some (.jump l) => exact .bind (keepsPlace_codeAt l) fun _ => ih _

end Act

namespace Machine

variable {H α β : Type}

theorem tick_bind_apply (x : Ticking H α) (f : α → Ticking H β) (m : Machine H) :
    (x >>= f) m = match x m with
      | .ok a m' => f a m'
      | .error e m' => .error e m' := by
  show EStateM.bind x f m = _
  unfold EStateM.bind
  cases x m <;> rfl

theorem tick_pure_apply (a : α) (m : Machine H) : (pure a : Ticking H α) m = .ok a m := rfl

theorem tick_get_apply (m : Machine H) : (get : Ticking H (Machine H)) m = .ok m m := rfl

theorem tick_modify_apply (f : Machine H → Machine H) (m : Machine H) :
    (modify f : Ticking H Unit) m = .ok () (f m) := rfl

variable [Host H]

theorem visit_apply (steps i : Nat) (m : Machine H) :
    visit steps i m = match m.ready? i with
      | none => .ok () m
      | some t => takeTurn steps i t (m.lend i t) := by
  simp only [visit, tick_bind_apply, tick_get_apply]
  cases m.ready? i <;> rfl

/-- What a frame does after the visits of its first pass. -/
theorem stepWithin_succ (steps limit : Nat) (m : Machine H) :
    stepWithin steps (limit + 1) m =
      match (List.range m.queue.length).forM (visit steps) { m with visual := false } with
      | .error e m' => .error e m'
      | .ok _ m' =>
        if m.queue.length < m'.queue.length ∧ m'.endPass.mayRepeat = true then
          stepWithin steps limit m'.endPass
        else
          .ok () { m'.endPass with clock := m'.clock.advance, frame := m'.frame + 1 } := by
  simp only [stepWithin, passes, pass, tick_bind_apply, tick_get_apply, tick_modify_apply]
  cases (List.range m.queue.length).forM (visit steps) { m with visual := false } with
  | error e m' => rfl
  | ok u m' =>
    simp only [tick_pure_apply, Bool.and_eq_true, decide_eq_true_eq]
    by_cases hagain : m.queue.length < m'.queue.length ∧ m'.endPass.mayRepeat = true
    · rw [if_pos hagain, if_pos hagain]
    · rw [if_neg hagain, if_neg hagain]
      rfl

end Machine

namespace World

variable {H : Type} [Host H]

/-- The state after a visit. -/
def afterVisit (length : Nat) (seats : List Nat) : EStateM.Result Fault (Machine H) Unit → World H
  | .ok _ m => .pass m length seats
  | .error _ m => .rest m

/-- A visit is done in steps. -/
theorem reaches_visit (steps i : Nat) (m : Machine H) (length : Nat) (seats : List Nat) :
    Reaches .cut (.pass m length (i :: seats))
      (afterVisit length seats (Machine.visit steps i m)) := by
  rw [Machine.visit_apply]
  cases hready : m.ready? i with
  | none => exact .single (.skip hready length seats)
  | some t =>
    dsimp only
    unfold Machine.takeTurn
    cases htarget : (m.lend i t).target? t.target with
    | none =>
      refine .single (.refuse hready (fun target code ht => ?_) length seats)
      cases htarget.symm.trans ht
    | some target =>
      simp only [Act.resume, Act.bind_apply, Act.thread_apply]
      cases hc : target.program.continuation? t.continuation with
      | none =>
        simp only [Act.codeAt, Act.bind_apply, Act.get_apply, hc]
        refine .single (.refuse hready (fun target' code ht => ?_) length seats)
        rintro ⟨c, hc', -⟩
        cases htarget.symm.trans ht
        cases hc.symm.trans hc'
      | some c =>
        have hcode : Act.codeAt t.continuation
            (⟨m.lend i t, t, i, target.program⟩ : Turn H) = .ok c.body _ := Act.codeAt_apply hc
        rw [hcode]
        dsimp only
        have henter : Step .cut (.pass m length (i :: seats))
            (.turn ⟨m.lend i t, t, i, target.program⟩ t.continuation c.body length seats) :=
          .enter (R := .cut) hready htarget ⟨c, hc, rfl⟩ length seats
        have hfollow := reaches_follow length seats steps c.body
          ⟨m.lend i t, t, i, target.program⟩ t.continuation
        have hplace := Act.keepsPlace_follow steps c.body ⟨m.lend i t, t, i, target.program⟩
        unfold Act.after at hplace
        refine .head henter ?_
        generalize Act.follow steps c.body (⟨m.lend i t, t, i, target.program⟩ : Turn H) = r
          at hfollow hplace ⊢
        cases r with
        | ok outcome t' =>
          dsimp only [afterTurn, afterVisit] at hfollow ⊢
          rw [show t'.seat = i from hplace.1] at hfollow
          exact hfollow
        | error e t' =>
          dsimp only [afterTurn, afterVisit] at hfollow ⊢
          rw [show t'.seat = i from hplace.1] at hfollow
          exact hfollow

theorem reaches_visits (steps : Nat) (m : Machine H) (length : Nat) (seats : List Nat) :
    Reaches .cut (.pass m length seats)
      (afterVisit length [] (seats.forM (Machine.visit steps) m)) := by
  induction seats generalizing m with
  | nil => exact .refl
  | cons i rest ih =>
    have hvisit := reaches_visit steps i m length rest
    show Reaches .cut _ (afterVisit length []
      (EStateM.bind (Machine.visit steps i) (fun _ => rest.forM (Machine.visit steps)) m))
    unfold EStateM.bind
    cases hr : Machine.visit steps i m with
    | ok u m' =>
      rw [hr] at hvisit
      exact hvisit.trans (ih m')
    | error e m' =>
      rw [hr] at hvisit
      exact hvisit

/-- The state after a frame. -/
def afterFrame : EStateM.Result Fault (Machine H) Unit → World H
  | .ok _ m => .rest m
  | .error _ m => .rest m

/-- A frame is done in steps from its first pass on. -/
theorem reaches_frame (steps limit : Nat) (m : Machine H) :
    Reaches .cut
      (.pass { m with visual := false } m.queue.length (List.range m.queue.length))
      (afterFrame (Machine.stepWithin steps (limit + 1) m)) := by
  have hvisits (m : Machine H) := reaches_visits steps { m with visual := false } m.queue.length
    (List.range m.queue.length)
  induction limit generalizing m with
  | zero =>
    have hvisits := hvisits m
    rw [Machine.stepWithin_succ]
    generalize (List.range m.queue.length).forM (Machine.visit (H := H) steps) _ = r at hvisits ⊢
    cases r with
    | error e m' => exact hvisits
    | ok u m' =>
      dsimp only
      split
      · exact .tail hvisits (.close m' _)
      · exact .tail hvisits (.close m' _)
  | succ limit ih =>
    have hvisits := hvisits m
    rw [Machine.stepWithin_succ]
    generalize (List.range m.queue.length).forM (Machine.visit (H := H) steps) _ = r at hvisits ⊢
    cases r with
    | error e m' => exact hvisits
    | ok u m' =>
      dsimp only
      split
      · rename_i hagain
        exact (hvisits.tail (.again hagain.1 hagain.2)).trans (ih m'.endPass)
      · exact .tail hvisits (.close m' _)

/-- **Whatever is asked of a machine is done in steps**, whether it ends in a fault or not. -/
theorem reaches_perform (r : Request H) (m : Machine H) :
    Reaches .cut (.rest m) (afterFrame (r.perform m)) := by
  cases hr : r.change? with
  | some f =>
    rw [Request.perform_of_change? hr]
    exact .single (.request hr m)
  | none =>
    cases r with
    | step steps limit =>
      cases limit with
      | zero => exact .single (.lapse m)
      | succ limit => exact .head (.start m) (reaches_frame steps limit m)
    | _ => cases hr

theorem reaches_performAll (requests : List (Request H)) (m : Machine H) :
    Reaches .cut (.rest m) (afterFrame (Request.performAll requests m)) := by
  induction requests generalizing m with
  | nil => exact .refl
  | cons r rest ih =>
    have hfirst := reaches_perform r m
    simp only [Request.performAll, Machine.tick_bind_apply]
    generalize r.perform m = result at hfirst ⊢
    cases result with
    | error e m' => exact hfirst
    | ok u m' => exact hfirst.trans (ih m')

end World

end BlockScript
