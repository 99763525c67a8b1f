import BlockScript.Proofs.Clocks
import BlockScript.Proofs.Exactness
import BlockScript.Proofs.Rendezvous
import BlockScript.Proofs.Successions

/-!
# Waiting for some time

A thread that waits for some time, or glides, first notes when it begins and for how long. Then it
comes to a label, to which it returns until the time has passed.

* `Script.Timed`: what a wait and a glide note, and what stands at their labels;
* `World.Arises.paced`: a thread that notes the time has all of a wait or a glide before it;
* `Sighting.onward_step`: a thread at work executes its statement;
* `Sighting.notes_run`, `Sighting.Notes.valued`: it notes one thing after the other, at the same
  time, and each is the value of its expression;
* `Registers.waiting`: whether the time has not passed.
-/

namespace BlockScript

open Compile (stillWaiting)

/-! ## 1. Waits and glides in scripts -/

/-- Whether the statement notes when something begins. -/
def Stmt.notesTime : Stmt → Bool
  | .setRegister .start _ => true
  | _ => false

namespace Compile

/-- What a wait notes: when it begins, how long it lasts, and that no turn has passed. -/
def waitNotes (duration : Expr) : List (Register × Expr) :=
  [(.start, .now), (.duration, duration), (.first, one)]

/-- What a glide notes: when it begins, how long it lasts, and from where to where it goes. -/
def glideNotes (secs x y : Expr) : List (Register × Expr) :=
  [(.start, .now), (.duration, secs), (.fromX, .sense .x), (.fromY, .sense .y), (.toX, x),
    (.toY, y)]

end Compile

namespace Script

/-- The statements that note something. -/
def noting (notes : List (Register × Expr)) : List Stmt := notes.map fun n => .setRegister n.1 n.2

theorem noting_append (a b : List (Register × Expr)) : noting (a ++ b) = noting a ++ noting b :=
  List.map_append

/-- What stands at the label of a wait. -/
inductive WaitPoll (k : Label) : List Stmt → Prop
  | mk (behind after : List Stmt) :
      WaitPoll k (.branch (.or stillWaiting (.register .first))
        (.setRegister .first Compile.zero :: .forceQueue k :: behind) [] :: after)

/-- What stands at the label of a glide. -/
inductive GlidePoll (k : Label) : List Stmt → Prop
  | mk (behind after : List Stmt) :
      GlidePoll k (.motion .glideStep :: .branch stillWaiting (.forceQueue k :: behind) [] :: after)

/-- A wait or a glide: what it notes, and what stands at its label. -/
inductive Timed : List (Register × Expr) → (Label → List Stmt → Prop) → Prop
  | wait (duration : Expr) : Timed (Compile.waitNotes duration) WaitPoll
  | glide (secs x y : Expr) : Timed (Compile.glideNotes secs x y) GlidePoll

/-- A statement that notes when something begins is the first one of a wait or a glide. -/
def Paced (s : Stmt) (rest : List Stmt) : Prop :=
  s.notesTime = true → ∃ notes poll k code, Timed notes poll ∧ poll k code ∧
    s :: rest = noting notes ++ .label k :: code

variable {notes : List (Register × Expr)} {poll : Label → List Stmt → Prop} {k : Label}
  {a b : List Stmt}

theorem Timed.append (h : Timed notes poll) (ha : poll k a) (b : List Stmt) : poll k (a ++ b) := by
  cases h <;> cases ha <;> exact .mk _ _

theorem WaitPoll.pruned (h : WaitPoll k a) (hp : Pruned a b) : WaitPoll k b := by
  cases h with
  | mk =>
    cases hp with
    | same => exact .mk _ _
    | last hterm => cases hterm
    | branch _ hyes hno =>
      cases hno
      cases hyes with
      | last hterm => cases hterm
      | same _ hforce =>
        cases hforce with
        | same | last => exact .mk _ _

theorem GlidePoll.pruned (h : GlidePoll k a) (hp : Pruned a b) : GlidePoll k b := by
  cases h with
  | mk =>
    cases hp with
    | last hterm => cases hterm
    | same _ hp =>
      cases hp with
      | same => exact .mk _ _
      | last hterm => cases hterm
      | branch _ hyes hno =>
        cases hno
        cases hyes with
        | same | last => exact .mk _ _

theorem Timed.pruned (h : Timed notes poll) (ha : poll k a) (hp : Pruned a b) : poll k b := by
  cases h with
  | wait => exact WaitPoll.pruned ha hp
  | glide => exact GlidePoll.pruned ha hp

theorem paced_of_not_notesTime {s : Stmt} (h : s.notesTime = false) (rest : List Stmt) :
    Paced s rest := by
  intro htime
  rw [h] at htime
  cases htime

theorem paced_of_not_begins {s : Stmt} {rest : List Stmt} (h : s.begins = false) :
    Paced s rest := by
  refine paced_of_not_notesTime ?_ rest
  cases s with
  | setRegister r =>
    cases r with
    | start => cases h
    | _ => rfl
  | _ => rfl

/-- **In compiled scripts whatever notes the time is a wait or a glide.** -/
theorem convention_paced : Convention Paced where
  grows := by
    intro s a b h htime
    obtain ⟨notes, poll, k, code, htimed, hpoll, heq⟩ := h htime
    refine ⟨notes, poll, k, code ++ b, htimed, htimed.append hpoll b, ?_⟩
    rw [← List.cons_append, heq, List.append_assoc, List.cons_append]
  free := paced_of_not_begins
  timedWait l duration := followed_timedWait paced_of_not_begins l duration fun _ =>
    ⟨_, _, l, _, .wait duration, .mk [] [.restore], rfl⟩
  glide l secs x y := followed_glide paced_of_not_begins l secs x y fun _ =>
    ⟨_, _, l, _, .glide secs x y, .mk [] [.restore], rfl⟩
  request l _ _ _ h := followed_request paced_of_not_begins l h <| by
    cases h <;> exact paced_of_not_notesTime rfl _

/-- **A thread that notes the time has all of a wait or a glide before it**, also when scripts are
    cut, and finds at its label what stands there. -/
theorem exists_poll {source : Program → List Compile.Labelled} {q : Program} {s : Stmt}
    {code rest : List Stmt} (hq : q.Stems source) (hplaced : Placed (.whole source) q code)
    (hpaced : Followed Paced code) (hpruned : Pruned code (s :: rest))
    (hbare : ∀ l, .label l ∉ nodes (s :: rest)) (hs : s.notesTime = true) :
    ∃ notes poll k after, Timed notes poll ∧ s :: rest = noting notes ++ after ∧ poll k after ∧
      ∀ code', Rules.cut.finds q k code' → poll k code' := by
  induction code with
  | nil => cases hpruned
  | cons s₀ rest₀ ih =>
    cases hpruned with
    | label l h => exact ih (Placed.right (a := [.label l]) hplaced) hpaced.2 h
    | branch => cases hs
    | last hterm =>
      cases s with
      | setRegister => cases hterm
      | _ => cases hs
    | same _ h =>
      obtain ⟨notes, poll, k, after, htimed, hpoll, heq⟩ := hpaced.1.2 hs
      have hwhole : Pruned (noting notes ++ .label k :: after) (s :: rest) := heq ▸ .same s h
      have hnotes : ∀ s ∈ noting notes, ∃ r e, s = .setRegister r e := by
        intro s hmem
        obtain ⟨n, -, rfl⟩ := List.mem_map.mp hmem
        exact ⟨_, _, rfl⟩
      obtain ⟨after', hcut, hpruned⟩ := hwhole.after hnotes
      have hafter : Pruned after after' := by
        cases hpruned with
        | label _ h => exact h
        | same =>
          rw [hcut] at hbare
          exact absurd (mem_nodes_append.mpr (.inr List.mem_cons_self)) (hbare k)
        | last hterm => cases hterm
      refine ⟨notes, poll, k, after', htimed, hcut, htimed.pruned hpoll hafter, fun code' hc => ?_⟩
      rw [heq] at hplaced
      have hfound := hplaced.right.found k _ (.here after)
      rw [List.flatten_singleton] at hfound
      obtain ⟨code₁, hwhole, hpruned₁⟩ := hq.whole hc
      rw [hq.unique hfound hwhole] at hpruned₁
      exact htimed.pruned hpoll hpruned₁

end Script

/-- In every state of a compiled project a thread that notes the time has all of a wait or a glide
    before it. -/
theorem World.Arises.paced {H : Type} [Host H] {p : Project} {o : Options} {host : H}
    {surroundings : Surroundings} {m : Machine H}
    (hload : Player.loadProject p o host surroundings = .ok m) {t : Turn H} {l : Label} {s : Stmt}
    {rest : List Stmt} {length : Nat} {seats : List Nat}
    (h : World.Arises m (.turn t l (s :: rest) length seats)) (hs : s.notesTime = true) :
    ∃ notes poll k after, Script.Timed notes poll ∧ s :: rest = Script.noting notes ++ after ∧
      poll k after ∧ ∀ code, Rules.cut.finds t.program k code → poll k code := by
  obtain ⟨source, code, hstems, hplaced, hpaced, hpruned⟩ :=
    h.uncut Script.convention_paced hload
  exact Script.exists_poll hstems hplaced hpaced hpruned (h.bare hload) hs

/-! ## 2. A thread at work -/

/-- The value of an expression as a number, for the thread at work. -/
def World.value? {H : Type} [Host H] (w : World H) (e : Expr) : Option Float :=
  w.turn?.bind fun t => (Act.evalNumber e).run' t

theorem World.value?_turn {H : Type} [Host H] {e : Expr} {t t' : Turn H} {x : Float}
    (h : Act.evalNumber e t = .ok x t') (l : Label) (code : List Stmt) (length : Nat)
    (seats : List Nat) : (World.turn t l code length seats).value? e = some x := by
  simp only [value?, turn?, Option.bind_some, EStateM.run', EStateM.run, h]

/-- The clock is asked for the time. -/
theorem World.eq_of_value?_now {H : Type} [Host H] {w : World H} {x : Float}
    (h : w.value? .now = some x) : x = Value.orZero w.machine.clock.read.1 := by
  cases w with
  | rest | pass => cases h
  | turn t => exact (Option.some.inj h).symm

theorem World.eq_of_value?_number {H : Type} [Host H] {w : World H} {n x : Float}
    (h : w.value? (.number n) = some x) : x = Value.orZero n := by
  cases w with
  | rest | pass => cases h
  | turn t => exact (Option.some.inj h).symm

theorem World.isNaN_of_value? {H : Type} [Host H] {w : World H} {e : Expr} {x : Float}
    (h : w.value? e = some x) : x.isNaN = false := by
  obtain ⟨t, -, hx⟩ := Option.bind_eq_some_iff.mp h
  unfold EStateM.run' EStateM.run at hx
  split at hx
  · rename_i heval
    cases hx
    exact Act.isNaN_of_evalNumber heval
  · cases hx

namespace Act

variable {H : Type} [Host H]

/-- To write a register is to evaluate an expression, which leaves the other registers alone. -/
theorem exec_setRegister {r : Register} {e : Expr} {t t' : Turn H} {c : Control}
    (h : exec (.setRegister r e) t = .ok c t') :
    ∃ x t₁, evalNumber e t = .ok x t₁ ∧ c = .onward [] ∧
      t'.thread.registers = t.thread.registers.set r x := by
  obtain ⟨x, t₁, hx, h⟩ := bind_eq_ok.mp h
  cases h
  have hregisters : t₁.thread.registers = t.thread.registers :=
    (made_evalNumber e.frees_true).sameRegisters.of_ok hx
  refine ⟨x, t₁, hx, rfl, ?_⟩
  rw [← hregisters]
  cases r <;> rfl

end Act

namespace Sighting

variable {H : Type} {a b c : Sighting H}

/-- What the thread has in its registers. -/
abbrev registers (a : Sighting H) : Registers := a.spot.thread.registers

theorem registers_eq {t : Thread} {l : Label} {code : List Stmt} (h : a.spot = .work t l code) :
    a.registers = t.registers := by
  rw [registers, h]
  rfl

variable [Host H] {R : Rules} {D : Discipline R}

/-- The states that follow one with the thread in view. -/
abbrev Run (R : Rules) : Sighting H → Sighting H → Prop := Relation.ReflTransGen (Step R)

/-- The states that follow one, as long as something holds. -/
abbrev Stays (R : Rules) (P : Sighting H → Prop) : Sighting H → Sighting H → Prop :=
  Relation.ReflTransGen fun x y => Step R x y ∧ P y

/-- **A thread at work executes its statement**, unless that makes it leave. -/
theorem onward_step (ha : a.world.Sound D) {t : Thread} {l : Label} {s : Stmt} {rest : List Stmt}
    (hspot : a.spot = .work t l (s :: rest)) (hs : s.isTerminator = false) (h : Step R a b) :
    ∃ u u' code length seats, a.world = .turn u l (s :: rest) length seats ∧ u.thread = t ∧
      Act.exec s u = .ok (.onward code) u' ∧ b.world = .turn u' l (code ++ rest) length seats ∧
      b.spot = .work u'.thread l (code ++ rest) := by
  obtain ⟨-, -, hmoves⟩ := h.spot ha
  obtain ⟨w, p, x, hx⟩ := a
  obtain ⟨w', p', y, hy⟩ := b
  obtain ⟨hstep, -⟩ := h
  dsimp only at hspot hstep hmoves ⊢
  subst hspot
  have hstays {k : Label} {t' : Thread} (hd : Act.Departs p s t k t') : False := by
    cases hd <;> cases hs
  obtain ⟨t', code, rfl⟩ : ∃ t' code, y = .work t' l code := by
    cases hmoves with
    | jump hd => exact (hstays hd).elim
    | yield hd => exact (hstays hd).elim
    | onward => exact ⟨_, _, rfl⟩
  cases hx with
  | work u =>
    cases hy with
    | work u' =>
      cases hstep with
      | onward hexec => exact ⟨u, u', _, _, _, rfl, rfl, hexec, rfl, rfl⟩
      | jump hexec => exact (hstays (Act.exec_departs hexec rfl)).elim

theorem Stays.run {P : Sighting H → Prop} (h : Stays R P a b) : Run R a b :=
  Relation.ReflTransGen.mono (fun _ _ hstep => hstep.1) _ _ h

theorem Stays.mono {P Q : Sighting H → Prop} (h : Stays R P a b) (himp : ∀ x, P x → Q x) :
    Stays R Q a b :=
  Relation.ReflTransGen.mono (fun _ y hstep => ⟨hstep.1, himp y hstep.2⟩) _ _ h

theorem reaches_run (h : Run R a b) : World.Reaches R a.world b.world :=
  Relation.ReflTransGen.lift Sighting.world (fun _ _ hstep => hstep.1) _ _ h

/-- A thread keeps its program. -/
theorem sound_run (ha : a.world.Sound D) (h : Run R a b) :
    b.world.Sound D ∧ b.program = a.program := by
  induction h with
  | refl => exact ⟨ha, rfl⟩
  | tail _ hstep ih =>
    obtain ⟨hsound, hprogram, -⟩ := hstep.spot ih.1
    exact ⟨hsound, hprogram.trans ih.2⟩

/-- **Something holds as long as a run goes on, or there is a step that ends it.** -/
theorem run_until {P : Sighting H → Prop} {Q : Sighting H → Sighting H → Prop}
    (hstep : ∀ x y, P x → Step R x y → P y ∨ Q x y) (ha : P a) (h : Run R a b) :
    (Stays R P a b ∧ P b) ∨
      ∃ x y, Stays R P a x ∧ P x ∧ Step R x y ∧ Q x y ∧ Run R y b := by
  induction h with
  | refl => exact .inl ⟨.refl, ha⟩
  | @tail b c _ hbc ih =>
    rcases ih with ⟨hrun, hb⟩ | ⟨x, y, hrun, hx, hxy, hends, hrest⟩
    · rcases hstep b c hb hbc with hc | hends
      · exact .inl ⟨hrun.tail ⟨hbc, hc⟩, hc⟩
      · exact .inr ⟨b, c, hrun, hb, hbc, hends, .refl⟩
    · exact .inr ⟨x, y, hrun, hx, hxy, hends, hrest.tail hbc⟩

/-! ## 3. Taking notes -/

/-- On the way from one state to another, and at the time of the first, the expression has the
    value. -/
def Valued (R : Rules) (e : Expr) (x : Float) (a b : Sighting H) : Prop :=
  ∃ c, Run R a c ∧ Run R c b ∧ a.world.machine.SameTime c.world.machine ∧ c.world.value? e = some x

theorem Valued.trans {e : Expr} {x : Float} (h : Valued R e x a b) (hbc : Run R b c) :
    Valued R e x a c := by
  obtain ⟨d, had, hdb, htime, hx⟩ := h
  exact ⟨d, had, hdb.trans hbc, htime, hx⟩

/-- The thread notes one thing after the other, at the same time, with these statements to follow:
    each is the value of an expression when it is noted. -/
inductive Notes (R : Rules) (after : List Stmt) :
    List (Register × Expr) → Sighting H → Sighting H → Prop
  | nil {a : Sighting H} {t : Thread} {l : Label} (ha : a.spot = .work t l after) :
      Notes R after [] a a
  | cons {r : Register} {e : Expr} {rest : List (Register × Expr)} {a b c : Sighting H} {t : Thread}
      {l : Label} {x : Float} (ha : a.spot = .work t l (Script.noting ((r, e) :: rest) ++ after))
      (hstep : Step R a b) (htime : a.world.machine.SameTime b.world.machine)
      (hx : a.world.value? e = some x) (hb : b.registers = t.registers.set r x)
      (h : Notes R after rest b c) : Notes R after ((r, e) :: rest) a c

namespace Notes

variable {notes : List (Register × Expr)} {after : List Stmt}

theorem start (h : Notes R after notes a b) :
    ∃ t l, a.spot = .work t l (Script.noting notes ++ after) := by
  cases h with
  | nil ha => exact ⟨_, _, ha⟩
  | cons ha => exact ⟨_, _, ha⟩

theorem stop (h : Notes R after notes a b) : ∃ t l, b.spot = .work t l after := by
  induction h with
  | nil ha => exact ⟨_, _, ha⟩
  | cons _ _ _ _ _ _ ih => exact ih

/-- On the way the thread has some of it left to note. -/
theorem stays (h : Notes R after notes a b) : Stays R (fun x =>
    ∃ t l left, left <:+ notes ∧ x.spot = .work t l (Script.noting left ++ after)) a b := by
  induction h with
  | nil => exact .refl
  | @cons r e rest a b c t l x _ hstep _ _ _ hrest ih =>
    have hsuffix : rest <:+ (r, e) :: rest := List.suffix_cons _ _
    obtain ⟨t', l', hb⟩ := hrest.start
    refine .head ⟨hstep, t', l', rest, hsuffix, hb⟩ (Stays.mono ih ?_)
    rintro y ⟨t', l', left, hleft, hy⟩
    exact ⟨t', l', left, hleft.trans hsuffix, hy⟩

/-- What is not noted stays as it was. -/
theorem get_of_not_mem (h : Notes R after notes a b) {r : Register}
    (hr : r ∉ notes.map Prod.fst) :
    b.registers.get r = a.registers.get r := by
  induction h with
  | nil => rfl
  | @cons r' e rest a b c t l x ha _ _ _ hb _ ih =>
    rw [List.map_cons, List.mem_cons, not_or] at hr
    rw [ih hr.2, hb, Registers.get_set, if_neg hr.1, registers_eq ha]

/-- What is noted first is the value of the expression at the start. -/
theorem value?_start {r : Register} {e : Expr} (h : Notes R after ((r, e) :: notes) a b)
    (hr : r ∉ notes.map Prod.fst) : a.world.value? e = some (b.registers.get r) := by
  cases h with
  | cons _ _ _ hx hb hrest =>
    rw [hrest.get_of_not_mem hr, hb, Registers.get_set, if_pos rfl]
    exact hx

/-- **What is noted is the value of the expression**, at the time when the thread begins to note. -/
theorem valued (h : Notes R after notes a b) (hnodup : (notes.map Prod.fst).Nodup) {r : Register}
    {e : Expr} (hmem : (r, e) ∈ notes) : Valued R e (b.registers.get r) a b := by
  induction h with
  | nil => cases hmem
  | cons ha hstep htime hx hb hrest ih =>
    rw [List.map_cons, List.nodup_cons] at hnodup
    rcases List.mem_cons.mp hmem with heq | hmem
    · cases heq
      have hstart := (Notes.cons ha hstep htime hx hb hrest).value?_start hnodup.1
      exact ⟨_, .refl, .head hstep hrest.stays.run, .refl _, hstart⟩
    · obtain ⟨d, hbd, hdc, htime', hd⟩ := ih hnodup.2 hmem
      exact ⟨d, .head hstep hbd, hdc, htime.trans htime', hd⟩

end Notes

/-- **A thread that is about to note something notes it**, if the run goes on for long enough. -/
theorem notes_run {notes : List (Register × Expr)} {t : Thread} {l : Label} {after : List Stmt}
    (ha : a.world.Sound D) (hspot : a.spot = .work t l (Script.noting notes ++ after))
    (h : Run R a b) :
    (∃ done left, notes = done ++ left ∧ Notes R (Script.noting left ++ after) done a b) ∨
      ∃ c, Notes R after notes a c ∧ Run R c b := by
  induction notes generalizing a t l with
  | nil => exact .inr ⟨a, .nil hspot, h⟩
  | cons n left ih =>
    obtain ⟨r, e⟩ := n
    cases h.cases_head with
    | inl heq =>
      subst heq
      exact .inl ⟨[], _, rfl, .nil hspot⟩
    | inr hhead =>
      obtain ⟨c, hac, hcb⟩ := hhead
      obtain ⟨u, u', code, length, seats, hworld, rfl, hexec, hworld', hspot'⟩ :=
        onward_step ha hspot rfl hac
      obtain ⟨x, u₁, hx, hcode, hregisters⟩ := Act.exec_setRegister hexec
      cases hcode
      have htime : a.world.machine.SameTime c.world.machine := by
        rw [hworld, hworld']
        exact (Act.exec_sameTime _).of_ok hexec
      have hvalue : a.world.value? e = some x := by
        rw [hworld]
        exact World.value?_turn hx _ _ _ _
      have hnoted : c.registers = u.thread.registers.set r x :=
        (registers_eq hspot').trans hregisters
      rcases ih (hac.1.sound ha) hspot' hcb with ⟨done, left', heq, hnotes⟩ | ⟨d, hnotes, hdb⟩
      · have hstart : a.spot = .work u.thread l
            (Script.noting ((r, e) :: done) ++ (Script.noting left' ++ after)) := by
          rw [hspot, heq, ← List.append_assoc, ← Script.noting_append]
          rfl
        exact .inl ⟨(r, e) :: done, left', congrArg _ heq,
          .cons hstart hac htime hvalue hnoted hnotes⟩
      · exact .inr ⟨d, .cons hspot hac htime hvalue hnoted hnotes, hdb⟩

/-- What holds wherever the thread still has something to note, holds until everything is noted. -/
theorem stays_noting {P : Spot → Prop} {notes : List (Register × Expr)} {t : Thread} {l : Label}
    {after : List Stmt}
    (hP : ∀ t l left, left <:+ notes → P (.work t l (Script.noting left ++ after)))
    (ha : a.world.Sound D) (hspot : a.spot = .work t l (Script.noting notes ++ after))
    (h : Run R a b) :
    P b.spot ∨ ∃ c, Notes R after notes a c ∧ Stays R (fun x => P x.spot) a c ∧ Run R c b := by
  rcases notes_run ha hspot h with ⟨done, left, heq, hnotes⟩ | ⟨c, hnotes, hcb⟩
  · obtain ⟨t', l', hb⟩ := hnotes.stop
    rw [hb]
    exact .inl (hP t' l' left ⟨done, heq.symm⟩)
  · refine .inr ⟨c, hnotes, hnotes.stays.mono ?_, hcb⟩
    rintro x ⟨t', l', left, hleft, hx⟩
    rw [hx]
    exact hP t' l' left hleft

/-- **A thread that gives up its turn goes back to its seat.** -/
theorem forceQueue_step {a b : Sighting H} (ha : a.world.Sound D) {t : Thread} {l k : Label}
    {rest : List Stmt} (hspot : a.spot = .work t l (.forceQueue k :: rest)) (h : Step R a b) :
    b.spot = .seat { t with continuation := k } := by
  obtain ⟨-, -, hmoves⟩ := h.spot ha
  obtain ⟨w, p, x, hx⟩ := a
  obtain ⟨w', p', y, hy⟩ := b
  obtain ⟨hstep, -⟩ := h
  dsimp only at hspot hstep hmoves ⊢
  subst hspot
  have hexec (u : Turn H) : Act.exec (.forceQueue k) u = .ok (.leave (.yield k)) u := rfl
  -- whoever is at work afterwards has gone on, or to a label
  have hseat {t' : Thread} {l' : Label} {code : List Stmt} (hyt : y = .work t' l' code) :
      False := by
    subst hyt
    cases hx with
    | work u =>
      cases hy with
      | work u' =>
        cases hstep with
        | onward hexec' => cases (hexec u).symm.trans hexec'
        | jump hexec' => cases (hexec u).symm.trans hexec'
  cases hmoves with
  | onward => exact (hseat rfl).elim
  | jump => exact (hseat rfl).elim
  | yield hd =>
    cases hd
    rfl

end Sighting

/-- In every state of a compiled project a thread that notes the time begins a wait or a glide. -/
theorem World.Arises.exists_timed {H : Type} [Host H] {p : Project} {o : Options} {host : H}
    {surroundings : Surroundings} {m : Machine H}
    (hload : Player.loadProject p o host surroundings = .ok m) {a : Sighting H}
    (ha : World.Arises m a.world) {t : Thread} {l : Label} {s : Stmt} {rest : List Stmt}
    (hspot : a.spot = .work t l (s :: rest)) (hs : s.notesTime = true) :
    ∃ notes poll k after, Script.Timed notes poll ∧ s :: rest = Script.noting notes ++ after ∧
      poll k after ∧ ∀ code, Rules.cut.finds a.program k code → poll k code := by
  obtain ⟨w, q, x, hx⟩ := a
  dsimp only at ha hspot
  subst hspot
  cases hx with
  | work u => exact ha.paced hload hs

/-- In every state of a compiled project a thread that begins a wait or a glide has the rest of it
    before it, and finds that at its label. -/
theorem World.Arises.exists_poll {H : Type} [Host H] {p : Project} {o : Options} {host : H}
    {s : Surroundings} {m : Machine H} (hload : Player.loadProject p o host s = .ok m)
    {a : Sighting H} (ha : World.Arises m a.world) {notes : List (Register × Expr)}
    {poll : Label → List Stmt → Prop} (htimed : Script.Timed notes poll) {t : Thread} {l : Label}
    {rest : List Stmt} (hspot : a.spot = .work t l (Script.noting notes ++ rest)) :
    ∃ k, poll k rest ∧ ∀ code, Rules.cut.finds a.program k code → poll k code := by
  cases htimed with
  | wait =>
    obtain ⟨notes, poll, k, after, htimed, heq, hpoll, hfound⟩ := ha.exists_timed hload hspot rfl
    cases htimed with
    | wait =>
      cases heq
      exact ⟨k, hpoll, hfound⟩
    | glide => cases heq
  | glide =>
    obtain ⟨notes, poll, k, after, htimed, heq, hpoll, hfound⟩ := ha.exists_timed hload hspot rfl
    cases htimed with
    | wait => cases heq
    | glide =>
      cases heq
      exact ⟨k, hpoll, hfound⟩

/-! ## 4. Whether the time has passed -/

namespace Number

open Float.Model (UnpackedFloat)

/-- Only numbers are less than others. -/
theorem isNaN_of_lt {x y : Float} (h : x < y) : x.isNaN = false ∧ y.isNaN = false := by
  have hlt := lt_iff_compare.mp h
  show x.toModel.unpack.isNaN = false ∧ y.toModel.unpack.isNaN = false
  generalize x.toModel.unpack = u at hlt ⊢
  generalize y.toModel.unpack = v at hlt ⊢
  cases u with
  | notANumber => cases hlt
  | _ =>
    cases v with
    | notANumber => cases hlt
    | _ => exact ⟨rfl, rfl⟩

/-- A difference that is a number is one of numbers. -/
theorem isNaN_of_sub {x y : Float} (h : (x - y).isNaN = false) :
    x.isNaN = false ∧ y.isNaN = false := by
  have hsub : (Float.Model.pack
      (UnpackedFloat.sub .binary64 x.toModel.unpack y.toModel.unpack)).unpack.isNaN = false := h
  have hnone : (Float.Model.pack .notANumber).unpack.isNaN = true := by decide +kernel
  show x.toModel.unpack.isNaN = false ∧ y.toModel.unpack.isNaN = false
  generalize x.toModel.unpack = u at hsub ⊢
  generalize y.toModel.unpack = v at hsub ⊢
  have hnumber : UnpackedFloat.sub .binary64 u v ≠ .notANumber := by
    intro heq
    rw [heq, hnone] at hsub
    cases hsub
  cases u with
  | notANumber => exact absurd rfl hnumber
  | _ =>
    cases v with
    | notANumber => exact absurd rfl hnumber
    | _ => exact ⟨rfl, rfl⟩

end Number

/-- Whether the time that is noted has not passed when a clock tells a time. -/
def Registers.waiting (rs : Registers) (now : Float) : Bool :=
  (Value.number (Value.orZero now - Value.orZero rs.start)).lessThan (.number rs.duration)

/-- Once the wait is over, as much time has passed as was noted. -/
theorem Registers.not_lt_of_waiting {rs : Registers} {now : Float} (h : rs.waiting now = false) :
    ¬ Value.orZero now - Value.orZero rs.start < rs.duration := by
  intro hlt
  obtain ⟨helapsed, hduration⟩ := Number.isNaN_of_lt hlt
  rw [Registers.waiting, Value.lessThan_number helapsed hduration] at h
  exact of_decide_eq_false h hlt

namespace Act

variable {H : Type} [Host H]

/-- To ask whether the time has passed is to ask the clock. -/
theorem evalBool_stillWaiting (t : Turn H) :
    evalBool stillWaiting t = .ok (t.thread.registers.waiting t.machine.clock.read.1)
      { t with machine := t.machine.now.2 } :=
  rfl

/-- A thread in a wait goes on waiting if the time has not passed, or no turn has. -/
theorem exec_wait (yes no : List Stmt) (t : Turn H) :
    exec (.branch (.or stillWaiting (.register .first)) yes no) t =
      .ok (.onward (if t.thread.registers.waiting t.machine.clock.read.1 ||
        (Value.number t.thread.registers.first).toBool then yes else no))
        { t with machine := t.machine.now.2 } := by
  have hvalue : evalBool (.or stillWaiting (.register .first)) t =
      .ok (t.thread.registers.waiting t.machine.clock.read.1 ||
        (Value.number t.thread.registers.first).toBool) { t with machine := t.machine.now.2 } := by
    have hstill : eval stillWaiting t = .ok
        (.boolean (t.thread.registers.waiting t.machine.clock.read.1))
        { t with machine := t.machine.now.2 } := rfl
    simp only [evalBool, eval, bind_apply, hstill]
    cases t.thread.registers.waiting t.machine.clock.read.1 <;> rfl
  rw [exec_branch, hvalue]

end Act

/-! ## 5. Runs that can be computed -/

/-- Whether the thread at work is about to note when something begins. -/
def World.notesTime {H : Type} : World H → Bool
  | .turn _ _ (s :: _) _ _ => s.notesTime
  | _ => false

/-- Whether the third thing that the thread is about to note belongs in the register. -/
def Spot.notesThird (r : Register) : Spot → Bool
  | .work _ _ (_ :: _ :: .setRegister q _ :: _) => q == r
  | _ => false

/-- The first wait or glide after the green flag: where it begins, and right behind it. -/
def Machine.firstTimed? {H : Type} [Host H] {R : Rules} (f : Finder R) (m : Machine H) :
    Option (Sighting H × Sighting H) :=
  ((World.rest m.greenFlag.2).seek? .cut World.notesTime 9).bind fun w =>
    (Sighting.atWork? w).bind fun a =>
      (a.seek? f 0 (·.spot.isRestoring) 99).map fun b => (a, b)

theorem Machine.firstTimed?_spec {H : Type} [Host H] {R : Rules} {f : Finder R} {m : Machine H}
    {a b : Sighting H} (h : m.firstTimed? f = some (a, b)) :
    World.Arises m a.world ∧
      (∃ t l s rest, a.spot = .work t l (s :: rest) ∧ s.notesTime = true) ∧
      Sighting.Run R a b ∧ b.spot.isRestoring = true := by
  obtain ⟨w, hw, h⟩ := Option.bind_eq_some_iff.mp h
  obtain ⟨a', ha, h⟩ := Option.bind_eq_some_iff.mp h
  obtain ⟨b', hb, heq⟩ := Option.map_eq_some_iff.mp h
  cases heq
  obtain ⟨hreaches, hnotes⟩ := World.reaches_seek? hw
  obtain ⟨hwithin, hrestoring⟩ := Sighting.within_seek? hb
  have hworld := Sighting.world_of_atWork? ha
  refine ⟨.head (.greenFlag m) (hworld ▸ hreaches), ?_,
    Relation.ReflTransGen.mono (fun _ _ hstep => hstep.1) _ _ hwithin, hrestoring⟩
  cases w with
  | rest | pass => cases hnotes
  | turn t l code =>
    cases code with
    | nil => cases hnotes
    | cons s rest =>
      cases ha
      exact ⟨_, _, _, _, rfl, hnotes⟩

end BlockScript
