import BlockScript.Proofs.Acts
import Mathlib.Data.List.Forall2

/-!
# What a thread keeps

Most acts change little of the thread at work: its registers, and what is known about the arguments
of its calls. Where it resumes, which procedures it is inside of and what it saved stay as they
are.

* `Act.Keeps`: a relation between the turn before an act and the turn after it, fault or not;
* `Thread.Kin`: the same thread but for registers and known conversions;
* `Act.Blind`: what does not depend on the machine, and outlasts small acts;
* `Act.Made.keepsThread`: evaluation and plain statements keep the thread in this sense;
* `Act.Made.sameRegisters`, `Act.Made.quiet`: which of them leave the registers alone.
-/

namespace BlockScript

/-! ## 1. What an act keeps -/

namespace Act

variable {H : Type} {α β : Type}

/-- The turn after an act, whether it ends in a fault or not. -/
def after (x : Act H α) (t : Turn H) : Turn H :=
  match x t with
  | .ok _ t' => t'
  | .error _ t' => t'

/-- The turn after an act is related to the turn before it, fault or not. -/
def Keeps (R : Turn H → Turn H → Prop) (x : Act H α) : Prop :=
  ∀ t, R t (x.after t)

theorem Keeps.of_ok {R : Turn H → Turn H → Prop} {x : Act H α} (h : Keeps R x) {t t' : Turn H}
    {a : α} (hx : x t = .ok a t') : R t t' := by
  have ht := h t
  unfold after at ht
  rw [hx] at ht
  exact ht

theorem Keeps.of_error {R : Turn H → Turn H → Prop} {x : Act H α} (h : Keeps R x) {t t' : Turn H}
    {e : Fault} (hx : x t = .error e t') : R t t' := by
  have ht := h t
  unfold after at ht
  rw [hx] at ht
  exact ht

theorem Keeps.of_after {R : Turn H → Turn H → Prop} (hrefl : ∀ t, R t t) {x : Act H α}
    (h : ∀ t, x.after t = t) : Keeps R x := by
  intro t
  rw [h t]
  exact hrefl t

/-- A sequence ends well just if both parts do. -/
theorem bind_eq_ok {x : Act H α} {f : α → Act H β} {t t'' : Turn H} {b : β} :
    (x >>= f) t = .ok b t'' ↔ ∃ a t', x t = .ok a t' ∧ f a t' = .ok b t'' := by
  rw [bind_apply]
  cases hx : x t with
  | ok a t' =>
    constructor
    · intro h
      exact ⟨a, t', rfl, h⟩
    · rintro ⟨a', s, hs, h⟩
      cases hs
      exact h
  | error e t' =>
    constructor
    · intro h
      cases h
    · rintro ⟨a', s, hs, _⟩
      cases hs

theorem Keeps.bind {R : Turn H → Turn H → Prop} (trans : ∀ a b c, R a b → R b c → R a c)
    {x : Act H α} {f : α → Act H β} (hx : Keeps R x) (hf : ∀ a, Keeps R (f a)) :
    Keeps R (x >>= f) := by
  intro t
  unfold after
  rw [bind_apply]
  cases h : x t with
  | ok a t' => exact trans _ _ _ (hx.of_ok h) (hf a t')
  | error e t' => exact hx.of_error h

/-- **What the small acts keep, every act made of them keeps.** -/
theorem Made.keeps {S : (α : Type) → Act H α → Prop} {R : Turn H → Turn H → Prop}
    (refl : ∀ t, R t t) (trans : ∀ a b c, R a b → R b c → R a c)
    (hS : ∀ α x, S α x → Keeps R x) {x : Act H α} (h : Made S α x) : Keeps R x := by
  induction h with
  | pure a => exact refl
  | prim h => exact hS _ _ h
  | bind _ _ hx hf => exact Keeps.bind trans hx hf

end Act

/-! ## 2. Threads that differ in registers only -/

/-- The same call, of whose arguments more or fewer conversions are known. -/
structure Call.Kin (c c' : Call) : Prop where
  procedure : c'.procedure = c.procedure
  resume : c'.resume = c.resume
  args : c'.args.map (·.raw) = c.args.map (·.raw)
  warp : c'.warp = c.warp
  caller : c'.caller = c.caller
  saved : c'.saved = c.saved

/-- The same thread but for its registers and the conversions that are known. -/
structure Thread.Kin (t t' : Thread) : Prop where
  target : t'.target = t.target
  base : t'.base = t.base
  continuation : t'.continuation = t.continuation
  calls : List.Forall₂ Call.Kin t.calls t'.calls
  /-- Only conversions of arguments of the innermost call become known. -/
  outer : t'.calls.tail = t.calls.tail
  saved : t'.saved = t.saved
  warp : t'.warp = t.warp
  group : t'.group = t.group
  ready : t'.ready = t.ready
  active : t'.active = t.active

namespace Call.Kin

theorem refl (c : Call) : Call.Kin c c := ⟨rfl, rfl, rfl, rfl, rfl, rfl⟩

theorem trans {a b c : Call} (h : Call.Kin a b) (h' : Call.Kin b c) : Call.Kin a c :=
  ⟨h'.procedure.trans h.procedure, h'.resume.trans h.resume, h'.args.trans h.args,
    h'.warp.trans h.warp, h'.caller.trans h.caller, h'.saved.trans h.saved⟩

theorem mapArg (c : Call) (i : Nat) {f : Argument → Argument} (hf : ∀ a, (f a).raw = a.raw) :
    Call.Kin c (c.mapArg i f) := by
  refine ⟨rfl, rfl, ?_, rfl, rfl, rfl⟩
  show (c.args.modify i f).map (·.raw) = c.args.map (·.raw)
  apply List.ext_getElem?
  intro j
  rw [List.getElem?_map, List.getElem?_map, List.getElem?_modify]
  cases c.args[j]? with
  | none => rfl
  | some a =>
    by_cases hij : i = j
    · simp [hij, hf]
    · simp [hij]

theorem numberArg (c : Call) (i : Nat) : Call.Kin c (c.numberArg i).2 := by
  unfold Call.numberArg
  split
  · exact .refl c
  · exact .mapArg c i fun _ => rfl

theorem boolArg (c : Call) (i : Nat) : Call.Kin c (c.boolArg i).2 := by
  unfold Call.boolArg
  split
  · exact .refl c
  · exact .mapArg c i fun _ => rfl

theorem trans_all {as bs cs : List Call} (h : List.Forall₂ Call.Kin as bs)
    (h' : List.Forall₂ Call.Kin bs cs) : List.Forall₂ Call.Kin as cs := by
  induction h generalizing cs with
  | nil => exact h'
  | cons hab _ ih =>
    cases h' with
    | cons hbc htl => exact .cons (hab.trans hbc) (ih htl)

end Call.Kin

namespace Thread.Kin

theorem refl (t : Thread) : Thread.Kin t t :=
  ⟨rfl, rfl, rfl, List.forall₂_same.mpr fun c _ => .refl c, rfl, rfl, rfl, rfl, rfl, rfl⟩

theorem trans {a b c : Thread} (h : Thread.Kin a b) (h' : Thread.Kin b c) : Thread.Kin a c := by
  refine ⟨h'.target.trans h.target, h'.base.trans h.base, h'.continuation.trans h.continuation, ?_,
    h'.outer.trans h.outer, h'.saved.trans h.saved, h'.warp.trans h.warp, h'.group.trans h.group,
    h'.ready.trans h.ready, h'.active.trans h.active⟩
  exact Call.Kin.trans_all h.calls h'.calls

/-- Nothing but registers is changed. -/
theorem withRegisters (t : Thread) (rs : Registers) : Thread.Kin t { t with registers := rs } :=
  ⟨rfl, rfl, rfl, (Thread.Kin.refl t).calls, rfl, rfl, rfl, rfl, rfl, rfl⟩

theorem length_calls {t t' : Thread} (h : Thread.Kin t t') : t'.calls.length = t.calls.length :=
  h.calls.length_eq.symm

/-- The copies that were saved are the same. -/
theorem saveStack {t t' : Thread} (h : Thread.Kin t t') : t'.saveStack = t.saveStack := by
  unfold Thread.saveStack
  have hc := h.calls
  generalize t.calls = cs at hc ⊢
  generalize t'.calls = cs' at hc ⊢
  cases hc with
  | nil => exact h.saved
  | cons hc _ => exact hc.saved

end Thread.Kin

namespace Thread

variable {t t' : Thread}

/-- Who leaves a procedure was inside of it. -/
theorem exists_of_endCall? {l : Label} (h : t.endCall? = some (l, t')) :
    ∃ c rest, t.calls = c :: rest ∧ l = c.resume ∧ t' =
      { t with
        calls := rest, registers := c.caller, warp := if c.warp then t.warp - 1 else t.warp
        active := t.active.leave c.procedure } := by
  unfold endCall? at h
  split at h
  · cases h
  · rename_i c rest hcalls
    cases h
    exact ⟨c, rest, hcalls, rfl, rfl⟩

/-- Who takes back registers has saved them. -/
theorem exists_of_restore? (h : t.restore? = some t') :
    ∃ rs rest, t.saveStack = rs :: rest ∧ t' = { t.withSaveStack rest with registers := rs } := by
  unfold restore? at h
  split at h
  · cases h
  · rename_i rs rest hstack
    cases h
    exact ⟨rs, rest, hstack, rfl⟩

end Thread

/-! ## 3. Small acts keep the thread -/

/-- What a small act does to the thread at work: nothing, or it changes registers, or a conversion
    of an argument of the innermost call becomes known. -/
inductive Thread.Touched : Thread → Thread → Prop
  | same (t : Thread) : Touched t t
  | registers (t : Thread) (rs : Registers) : Touched t { t with registers := rs }
  | known {t : Thread} {slot : Slot} {e : Expr} {v : Value} {calls : List Call}
      (h : Act.knownIn? slot e t.calls = some (v, calls)) : Touched t { t with calls }

namespace Act

variable {H : Type}

theorem kin_knownIn? {slot : Slot} {e : Expr} {calls calls' : List Call} {v : Value}
    (h : knownIn? slot e calls = some (v, calls')) :
    List.Forall₂ Call.Kin calls calls' ∧ calls'.tail = calls.tail := by
  have same (cs : List Call) : List.Forall₂ Call.Kin cs cs :=
    List.forall₂_same.mpr fun c _ => .refl c
  unfold knownIn? at h
  split at h
  · cases h
    exact ⟨.cons (.numberArg _ _) (same _), rfl⟩
  · cases h
    exact ⟨.cons (.boolArg _ _) (same _), rfl⟩
  · cases h

end Act

theorem Thread.Touched.kin {t t' : Thread} (h : Thread.Touched t t') : Thread.Kin t t' := by
  cases h with
  | same => exact .refl t
  | registers => exact .withRegisters t _
  | known h =>
    obtain ⟨hcalls, houter⟩ := Act.kin_knownIn? h
    exact ⟨rfl, rfl, rfl, hcalls, houter, rfl, rfl, rfl, rfl, rfl⟩

namespace Act

variable {H : Type}

/-- The thread of the second turn is that of the first but for registers and known conversions. -/
def ThreadKin (t t' : Turn H) : Prop := Thread.Kin t.thread t'.thread

/-- The act changes no more of the thread than registers and known conversions. -/
abbrev KeepsThread {α : Type} (x : Act H α) : Prop := Keeps ThreadKin x

/-- The relation does not depend on the machine, and it outlasts what small acts do to the thread:
    a conversion is noted, or registers change. -/
structure Blind (w : Prop) (R : Turn H → Turn H → Prop) : Prop where
  refl (t : Turn H) : R t t
  trans (a b c : Turn H) (h : R a b) (h' : R b c) : R a c
  machine (t : Turn H) (machine : Machine H) : R t { t with machine }
  known (t : Turn H) (calls : List Call) (h : Thread.Touched t.thread { t.thread with calls }) :
    R t { t with thread := { t.thread with calls } }
  registers (t : Turn H) (f : Registers → Registers)
    (h : w ∨ f = fun rs => { rs with ticket := none }) :
    R t { t with thread := { t.thread with registers := f t.thread.registers } }

section Keep

variable {α : Type} {r w d : Prop}

theorem after_current (t : Turn H) : after current t = t := by
  unfold after
  rw [current_apply]
  cases t.machine.target? t.thread.target <;> rfl

theorem after_owner (s : Storage) (t : Turn H) : after (owner s) t = t := by
  cases hs : s.owner with
  | target =>
    have h := after_current t
    unfold after at h ⊢
    rw [owner_apply, hs]
    exact h
  | stage =>
    unfold after
    rw [owner_apply, hs]
    cases t.machine.stage? <;> rfl

theorem after_sprite (t : Turn H) : after sprite t = t := by
  unfold after
  rw [sprite_apply]
  cases t.machine.target? t.thread.target with
  | none => rfl
  | some target => cases h : target.sprite? <;> simp only [h]

theorem knownCast_apply (slot : Slot) (e : Expr) (t : Turn H) :
    knownCast slot e t = match knownIn? slot e t.thread.calls with
      | some (v, calls) => .ok (some v) { t with thread := { t.thread with calls } }
      | none => .ok none t := by
  simp only [knownCast, bind_apply, thread_apply]
  cases knownIn? slot e t.thread.calls <;> rfl

/-- A conversion through the innermost call changes nothing but what that call knows. -/
theorem after_knownCast (slot : Slot) (e : Expr) (t : Turn H) :
    ∃ calls, after (knownCast slot e) t = { t with thread := { t.thread with calls } } ∧
      Thread.Touched t.thread { t.thread with calls } := by
  unfold after
  rw [knownCast_apply]
  cases h : knownIn? slot e t.thread.calls with
  | none => exact ⟨t.thread.calls, rfl, .same _⟩
  | some known => exact ⟨known.2, rfl, .known h⟩

theorem after_of_ok {x : Act H α} {t t' : Turn H} {a : α} (h : x t = .ok a t') :
    x.after t = t' := by
  unfold after
  rw [h]

/-- **What evaluation does**: it rolls dice, asks the host, the calendar or the clock, or notes a
    conversion. -/
theorem keeps_sensing {R : Turn H → Turn H → Prop} (hrefl : ∀ t, R t t)
    (hdrawn : ∀ (t : Turn H) (dice : Dice) (host : H) (calendar : Calendar),
      R t { t with machine := { t.machine with dice, host, calendar } })
    (hasked : ∀ t : Turn H, R t { t with machine := t.machine.now.2 })
    (hknown : ∀ (t : Turn H) (calls : List Call),
      Thread.Touched t.thread { t.thread with calls } →
      R t { t with thread := { t.thread with calls } })
    {x : Act H α} (h : Sensing r α x) : Keeps R x := by
  cases h with
  | current => exact .of_after hrefl after_current
  | owner s => exact .of_after hrefl (after_owner s)
  | look f hf hx => exact .of_after hrefl fun t => after_of_ok (hx t)
  | knownCast slot e =>
    intro t
    obtain ⟨calls, hafter, htouched⟩ := after_knownCast slot e t
    rw [hafter]
    exact hknown t calls htouched
  | machine | thread => exact hrefl
  | roll | askHost | moment => exact fun t => hdrawn t _ _ _
  | now | timer => exact hasked

end Keep

section Work

variable [Host H] {α : Type} {r w d : Prop}

/-- **What does not depend on the machine outlasts small acts.** -/
theorem Blind.moving {R : Turn H → Turn H → Prop} (hR : Blind w R) {x : Act H α}
    (h : Moving r w d α x) : Keeps R x := by
  have hsense {β : Type} {x : Act H β} (h : Sensing r β x) : Keeps R x :=
    keeps_sensing hR.refl (fun t _ _ _ => hR.machine t _) (fun t => hR.machine t _) hR.known h
  have hmodify (f : Machine H → Machine H) : Keeps R (modifyMachine f) := fun t => hR.machine t _
  cases h with
  | modifySprite f =>
    exact .bind hR.trans (.of_after hR.refl after_sprite) fun _ =>
      .bind hR.trans (hsense .current) fun _ => hmodify _
  | working h =>
    cases h with
    | sensing h => exact hsense h
    | registers f h => exact fun t => hR.registers t f h
    | modifyCurrent f => exact .bind hR.trans (hsense .current) fun _ => hmodify _
    | modifyOwner s f => exact .bind hR.trans (hsense (.owner s)) fun _ => hmodify _
    | wearCostume v =>
      refine .bind hR.trans (hsense .current) fun _ =>
        .bind hR.trans (fun t => hR.machine t _) fun _ => ?_
      split
      · exact hmodify _
      · exact hR.refl
    | announce | tellHost | touchScreen | answer | resetTimer | createClone | stopOthers =>
      exact fun t => hR.machine t _

theorem Blind.made {R : Turn H → Turn H → Prop} (hR : Blind w R) {x : Act H α}
    (h : Made (Moving r w d) α x) : Keeps R x :=
  h.keeps hR.refl hR.trans fun _ _ => hR.moving

omit [Host H] in
theorem blind_threadKin : Blind w (ThreadKin (H := H)) where
  refl t := .refl t.thread
  trans _ _ _ := Thread.Kin.trans
  machine t _ := .refl t.thread
  known _ _ h := h.kin
  registers t _ _ := .withRegisters t.thread _

/-- **Whatever is made of small acts of work keeps the thread** but for its registers and the
    conversions that it knows. -/
theorem Made.keepsThread {x : Act H α} (h : Made (Moving r w d) α x) : KeepsThread x :=
  blind_threadKin.made h

end Work

/-! ## 4. Small acts and registers -/

/-- A thread that waits for no request has the same registers afterwards. -/
def Quiet (t t' : Turn H) : Prop :=
  t.thread.registers.ticket = none → t'.thread.registers = t.thread.registers

theorem Quiet.trans (a b c : Turn H) (h : Quiet a b) (h' : Quiet b c) : Quiet a c := by
  intro hticket
  have hb := h hticket
  exact (h' (hb ▸ hticket)).trans hb

section Quiet

variable {α : Type} {r : Prop}

/-- The thread has the same registers afterwards. -/
def SameRegisters (t t' : Turn H) : Prop := t'.thread.registers = t.thread.registers

theorem SameRegisters.trans (a b c : Turn H) (h : SameRegisters a b) (h' : SameRegisters b c) :
    SameRegisters a c :=
  Eq.trans h' h

theorem sameRegisters_sensing {x : Act H α} (h : Sensing r α x) : Keeps SameRegisters x :=
  keeps_sensing (R := SameRegisters) (fun _ => rfl) (fun _ _ _ _ => rfl) (fun _ => rfl)
    (fun _ _ _ => rfl) h

/-- **Evaluation leaves the registers alone.** -/
theorem Made.sameRegisters {x : Act H α} (h : Made (Sensing r) α x) : Keeps SameRegisters x :=
  h.keeps (R := SameRegisters) (fun _ => rfl) .trans fun _ _ => sameRegisters_sensing

theorem SameRegisters.quiet {t t' : Turn H} (h : SameRegisters t t') : Quiet t t' := fun _ => h

variable [Host H]

omit [Host H] in
theorem blind_quiet : Blind False (Quiet (H := H)) where
  refl _ _ := rfl
  trans := Quiet.trans
  machine _ _ _ := rfl
  known _ _ _ _ := rfl
  registers t f h := by
    cases h.resolve_left id
    exact Registers.forget_ticket

/-- **Acts that do without registers leave them alone**, if the thread waits for no request. -/
theorem Made.quiet {x : Act H α} (h : Made (Moving r False d) α x) : Keeps Quiet x :=
  blind_quiet.made h

end Quiet

end Act

end BlockScript
