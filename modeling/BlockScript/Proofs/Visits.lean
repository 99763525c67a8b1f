import BlockScript.Proofs.Incarnations

/-!
# The visits of a pass

A pass visits each seat that was there when it began, once and in order. Threads change the queue
while they are at work: they add seats, start scripts over and stop each other. Here is what becomes
of each seat in each visit, and from that of each thread in a pass.

* `Act.Attends`: what a turn does to the machine and to the seat of its thread;
* `Machine.visited`: the machine after so many visits of a pass;
* `Machine.Encounter`: what a visit does to a seat;
* `Machine.encounters`: a visit does that to each seat;
* `World.pass_runs_each_once`: what a pass does to each thread.
-/

namespace BlockScript

/-! ## 1. A turn -/

namespace Act

variable {H : Type} {I : Invariant}

/-- What happens while a thread is at work: the machine stays sound and in order, and it is known
    what becomes of each seat. -/
structure Works (I : Invariant) (t t' : Turn H) : Prop where
  sound : t'.machine.Sound I
  tidy : t'.machine.Tidy
  fates : Machine.Fates t.thread.target True t.machine t'.machine
  thread : Thread.Same t.thread t'.thread
  seat : t'.seat = t.seat
  program : t'.program = t.program

theorem Works.refl {t : Turn H} (hm : t.machine.Sound I) (htidy : t.machine.Tidy) :
    Works I t t :=
  ⟨hm, htidy, .refl _, .refl _, rfl, rfl⟩

theorem Works.trans {a b c : Turn H} (h : Works I a b) (h' : Works I b c) : Works I a c := by
  refine ⟨h'.sound, h'.tidy, h.fates.trans ?_, h.thread.trans h'.thread, h'.seat.trans h.seat,
    h'.program.trans h.program⟩
  rw [← h.thread.target]
  exact h'.fates

/-- So it is, and the thread has its seat still, unless it is told that it has lost it. -/
structure Attends (I : Invariant) (told : Prop) (t t' : Turn H) : Prop extends Works I t t' where
  seated : ¬ told → Seated t'
  lost : told → t'.machine.isRunning t'.seat = false

theorem Works.attends {told : Prop} {a b c : Turn H} (h : Works I a b) (h' : Attends I told b c) :
    Attends I told a c :=
  ⟨h.trans h'.toWorks, h'.seated, h'.lost⟩

/-- The thread itself may change, if it stays the same thread. -/
theorem attends_thread {t : Turn H} (hm : t.machine.Sound I) (htidy : t.machine.Tidy)
    (hs : Seated t) {thread : Thread} (h : Thread.Same t.thread thread) :
    Attends I False t { t with thread } := by
  obtain ⟨-, -, hseated⟩ := advances_thread h hm hs
  exact ⟨⟨hm, htidy, .refl _, h, rfl, rfl⟩, fun _ => hseated, False.elim⟩

/-- To look up statements changes nothing. -/
theorem eq_of_codeAt {l : Label} {code : List Stmt} {t t' : Turn H}
    (h : codeAt l t = .ok code t') : t' = t := by
  simp only [codeAt, bind_apply, get_apply] at h
  cases hc : t.program.continuation? l with
  | none =>
    rw [hc] at h
    cases h
  | some c =>
    rw [hc] at h
    cases h
    rfl

variable [Host H]

theorem attends_exec {s : Stmt} {t t' : Turn H} {c : Control} (hm : t.machine.Sound I)
    (htidy : t.machine.Tidy) (hs : Seated t) (h : exec s t = .ok c t') :
    Attends I (c = .leave .detached) t t' := by
  have horderly := exec_orderly s hm hs
  rw [h] at horderly
  obtain ⟨hpasses, hseated⟩ := horderly
  have hrunning : t.machine.running.isSome = true := by
    rw [hs.running]
    rfl
  have hfates := Machine.fates_of_alters ((exec_alters s).of_ok h).machine hrunning
  refine ⟨⟨hpasses.machine, htidy.evolves hpasses.evolves, hfates.mono fun _ => trivial,
    hpasses.thread, hpasses.seat, hpasses.program⟩, hseated, fun htold => ?_⟩
  rw [hpasses.seat]
  exact (exec_detached_iff hm hs h).mp htold

theorem attends_block (steps : Nat) {code : List Stmt} {t t' : Turn H} {e : Option Exit}
    (hm : t.machine.Sound I) (htidy : t.machine.Tidy) (hs : Seated t)
    (h : block steps code t = .ok e t') : Attends I (e = some .detached) t t' := by
  induction steps generalizing code t with
  | zero => cases h
  | succ steps ih =>
    cases code with
    | nil =>
      cases h
      exact ⟨.refl hm htidy, fun _ => hs, nofun⟩
    | cons s rest =>
      obtain ⟨c, t₁, hexec, h⟩ := bind_eq_ok.mp h
      have hfirst := attends_exec hm htidy hs hexec
      cases c with
      | onward first => exact hfirst.attends (ih hfirst.sound hfirst.tidy (hfirst.seated nofun) h)
      | leave e =>
        cases h
        exact ⟨hfirst.toWorks, fun hne => hfirst.seated fun heq => hne (by cases heq; rfl),
          fun heq => hfirst.lost (by cases heq; rfl)⟩

/-- **What a turn does**, over all statements that the thread executes in it. -/
theorem attends_follow (steps : Nat) {code : List Stmt} {t t' : Turn H} {o : Outcome}
    (hm : t.machine.Sound I) (htidy : t.machine.Tidy) (hs : Seated t)
    (h : follow steps code t = .ok o t') : Attends I (o = .detached) t t' := by
  induction steps generalizing code t with
  | zero => cases h
  | succ steps ih =>
    obtain ⟨e, t₁, hblock, h⟩ := bind_eq_ok.mp h
    have hfirst := attends_block (steps + 1) hm htidy hs hblock
    cases e with
    | none =>
      cases h
      exact ⟨hfirst.toWorks, fun _ => hfirst.seated nofun, nofun⟩
    | some e =>
      cases e with
      | stop =>
        cases h
        exact ⟨hfirst.toWorks, fun _ => hfirst.seated nofun, nofun⟩
      | detached =>
        cases h
        exact ⟨hfirst.toWorks, fun hne => absurd rfl hne, fun _ => hfirst.lost rfl⟩
      | yield l =>
        cases h
        have hlast : Attends I False t₁
            { t₁ with thread := { t₁.thread with continuation := l } } :=
          attends_thread hfirst.sound hfirst.tidy (hfirst.seated nofun) ⟨rfl, rfl, rfl⟩
        exact hfirst.attends ⟨hlast.toWorks, fun _ => hlast.seated id, nofun⟩
      | jump l =>
        obtain ⟨code, t₂, hcode, h⟩ := bind_eq_ok.mp h
        cases eq_of_codeAt hcode
        exact hfirst.attends (ih hfirst.sound hfirst.tidy (hfirst.seated nofun) h)

end Act

/-! ## 2. Seats before and after a turn -/

namespace Machine

variable {H : Type} {m : Machine H} {i j : Nat}

theorem getElem?_lend_ne (t : Thread) (hne : j ≠ i) :
    (m.lend i t).queue[j]? = m.queue[j]? :=
  List.getElem?_set_ne (Ne.symm hne)

theorem length_lend (t : Thread) : (m.lend i t).queue.length = m.queue.length :=
  List.length_set

/-- A thread that leaves its seat for its turn has it still, and so have the others. -/
theorem occupant?_of_lend {t : Thread} (hready : m.ready? i = some t) {script : TargetId × Label}
    (h : (m.lend i t).occupant? j = some script) : m.occupant? j = some script := by
  rcases occupant?_eq_some.mp h with ⟨u, hu, rfl⟩ | ⟨-, r, hr, rfl, rfl⟩
  · by_cases heq : j = i
    · subst heq
      rw [getElem?_lend hready] at hu
      cases hu
    · rw [getElem?_lend_ne t heq] at hu
      exact occupant?_waiting hu
  · cases hr
    exact occupant?_waiting (getElem?_of_ready? hready)

theorem getElem?_settle_ne (s : Seat) (hne : j ≠ i) :
    (m.settle i s).queue[j]? = m.queue[j]? := by
  unfold settle
  dsimp only
  split
  · exact List.getElem?_set_ne (Ne.symm hne)
  · rfl

theorem getElem?_settle_self (s : Seat) (h : m.queue[i]? = some .running) :
    (m.settle i s).queue[i]? = some s := by
  unfold settle
  dsimp only
  rw [if_pos (isRunning_iff.mpr h)]
  exact List.getElem?_set_self (lt_of_getElem? h)

theorem length_settle (s : Seat) : (m.settle i s).queue.length = m.queue.length := by
  unfold settle
  dsimp only
  split
  · exact List.length_set
  · rfl

/-- Where no thread is at work, no seat is marked. -/
theorem Settled.not_running {I : Invariant} (h : m.Settled I) : m.queue[j]? ≠ some .running := by
  intro hj
  obtain ⟨r, hr, -⟩ := h.tidy.lent j hj
  rw [h.running] at hr
  cases hr

end Machine

/-! ## 3. A visit -/

namespace Machine

variable {H : Type} [Host H]

/-- In a visit of a seat its thread takes a turn that ends so. -/
structure Turns (steps i : Nat) (m : Machine H) (t : Thread) (o : Outcome) (turn : Turn H) :
    Prop where
  ready : m.ready? i = some t
  resume : ∃ target, m.target? t.target = some target ∧
    Act.resume steps ⟨m.lend i t, t, i, target.program⟩ = .ok o turn

/-- What a visit of the seat `i` does to the seat `j`. -/
inductive Encounter (steps i : Nat) (m m' : Machine H) (j : Nat) : Prop
  /-- Nothing, and its thread takes no turn. -/
  | kept (hidle : j = i → m.ready? i = none) (h : m'.queue[j]? = m.queue[j]?)
  /-- Its thread takes a turn and goes back to it. -/
  | yielded {t : Thread} {turn : Turn H} (hj : j = i) (ht : Turns steps i m t .yielded turn)
      (hsame : Thread.Same t turn.thread) (h : m'.queue[j]? = some (.waiting turn.thread))
  /-- Its thread takes a turn and comes to its end. -/
  | finished {t : Thread} {turn : Turn H} (hj : j = i) (ht : Turns steps i m t .finished turn)
      (h : m'.queue[j]? = some .empty)
  /-- Its thread is stopped, by one of the same target or with all others; or it was new. -/
  | stopped {t : Thread} {o : Outcome} {turn : Turn H} (ht : Turns steps i m t o turn)
      (why : (∃ base, m.occupant? j = some (t.target, base)) ∨ m.queue.length ≤ j ∨
        ∀ k < m.queue.length, m'.queue[k]? = some .empty)
      (h : m'.queue[j]? = some .empty)
  /-- An event starts its script over, or the seat is new. -/
  | started {t u : Thread} {o : Outcome} {turn : Turn H} (ht : Turns steps i m t o turn)
      (hfresh : u.Fresh) (hnew : m.lastGroup < u.group)
      (hscript : m.occupant? j = some u.script ∨ m.queue.length ≤ j)
      (hready : j = i ∨ u.ready = true) (h : m'.queue[j]? = some (.waiting u))

/-- What a visit does. -/
structure Encounters (I : Invariant) (steps i : Nat) (m m' : Machine H) : Prop where
  settled : m'.Settled I
  length : m.queue.length ≤ m'.queue.length
  lastGroup : m.lastGroup ≤ m'.lastGroup
  encounter : ∀ j, Encounter steps i m m' j

section Visit

variable {D : Discipline .cut} {steps i j : Nat} {m m' : Machine H}

/-- The turn that a visit consists of. -/
theorem exists_turn_of_visit {t : Thread} (hready : m.ready? i = some t)
    (h : visit steps i m = .ok () m') :
    ∃ o turn, Turns steps i m t o turn ∧
      m' = turn.machine.settle i (seatAfter turn.thread o) := by
  rw [visit_apply, hready] at h
  dsimp only [takeTurn] at h
  split at h
  · cases h
  · rename_i target htarget
    split at h
    · rename_i o turn hresume
      cases h
      exact ⟨o, turn, ⟨hready, target, htarget, hresume⟩, rfl⟩
    · cases h

/-- What a thread does in its turn. -/
theorem Turns.attends {t : Thread} {o : Outcome} {turn : Turn H} (h : Turns steps i m t o turn)
    (hm : m.Settled D.toInvariant) :
    ∃ p, Act.Attends D.toInvariant (o = .detached) ⟨m.lend i t, t, i, p⟩ turn := by
  obtain ⟨hready, target, htarget, hresume⟩ := h
  have htidy := tidy_lend hm.tidy hm.running hready
  have hseated : Act.Seated (⟨m.lend i t, t, i, target.program⟩ : Turn H) :=
    ⟨rfl, getElem?_lend hready, target, htarget, rfl⟩
  refine ⟨target.program, ?_⟩
  obtain ⟨_, _, hthread, hresume⟩ := Act.bind_eq_ok.mp hresume
  cases hthread
  obtain ⟨code, t₁, hcode, hfollow⟩ := Act.bind_eq_ok.mp hresume
  cases Act.eq_of_codeAt hcode
  exact Act.attends_follow steps (continues_lend m i t hm.sound).1 htidy hseated hfollow

/-- Why a thread is stopped in a turn is also why it is stopped in the visit. -/
theorem stopped_of_turn {t : Thread} {o : Outcome} {turn : Turn H} (ht : Turns steps i m t o turn)
    (why : (∃ base, (m.lend i t).occupant? j = some (t.target, base)) ∨
      (m.lend i t).queue.length ≤ j ∨
      ∀ k < (m.lend i t).queue.length, turn.machine.queue[k]? = some .empty)
    (hempty : turn.machine.queue[j]? = some .empty) (s : Seat) :
    Encounter steps i m (turn.machine.settle i s) j := by
  -- an empty seat is not filled at the end of the turn
  have hkept (k : Nat) (hk : turn.machine.queue[k]? = some .empty) :
      (turn.machine.settle i s).queue[k]? = some .empty := by
    by_cases hki : k = i
    · subst hki
      have hlost : turn.machine.isRunning k = false := by
        rw [Bool.eq_false_iff, ne_eq, isRunning_iff, hk]
        nofun
      rw [settle_of_lost hlost]
      exact hk
    · exact (getElem?_settle_ne s hki).trans hk
  rw [length_lend] at why
  refine .stopped ht ?_ (hkept j hempty)
  rcases why with ⟨base, hown⟩ | hge | hall
  · exact .inl ⟨base, occupant?_of_lend ht.ready hown⟩
  · exact .inr (.inl hge)
  · exact .inr (.inr fun k hk => hkept k (hall k hk))

/-- What a visit does to the seats of others. -/
theorem encounter_of_ne {t : Thread} {o : Outcome} {turn : Turn H} (hm : m.Settled D.toInvariant)
    (ht : Turns steps i m t o turn) (s : Seat) (hne : j ≠ i) :
    Encounter steps i m (turn.machine.settle i s) j := by
  obtain ⟨p, hattends⟩ := ht.attends hm
  cases hattends.fates.seats.fate j with
  | kept h =>
    refine .kept (fun heq => absurd heq hne) ?_
    rw [getElem?_settle_ne s hne, h]
    exact getElem?_lend_ne t hne
  | stopped h _ why => exact stopped_of_turn ht why h s
  | started h hfresh hnew hscript hready =>
    refine .started ht hfresh hnew.1 ?_ (.inr (hready.resolve_right ?_))
      ((getElem?_settle_ne s hne).trans h)
    · rw [length_lend] at hscript
      exact hscript.imp_left fun hscript => occupant?_of_lend ht.ready hscript
    · show (m.lend i t).queue[j]? ≠ some .running
      rw [getElem?_lend_ne t hne]
      exact hm.not_running

/-- What a visit does to the seat that is visited. -/
theorem encounter_self {t : Thread} {o : Outcome} {turn : Turn H} (hm : m.Settled D.toInvariant)
    (ht : Turns steps i m t o turn) :
    Encounter steps i m (turn.machine.settle i (seatAfter turn.thread o)) i := by
  obtain ⟨p, hattends⟩ := ht.attends hm
  have hseat : turn.seat = i := hattends.seat
  cases hattends.fates.seats.fate i with
  | kept h =>
    -- the thread has its seat still, so it goes back to it or has come to its end
    have hlent : turn.machine.queue[i]? = some .running := h.trans (getElem?_lend ht.ready)
    have hafter := getElem?_settle_self (seatAfter turn.thread o) hlent
    cases o with
    | yielded => exact .yielded rfl ht hattends.thread hafter
    | finished => exact .finished rfl ht hafter
    | detached =>
      have hlost := hattends.lost rfl
      rw [hseat, isRunning_iff.mpr hlent] at hlost
      cases hlost
  | stopped h _ why => exact stopped_of_turn ht why h _
  | started h hfresh hnew hscript hready =>
    have hlost : turn.machine.isRunning i = false := by
      rw [Bool.eq_false_iff, ne_eq, isRunning_iff, h]
      nofun
    refine .started ht hfresh hnew.1 ?_ (.inl rfl) ?_
    · rw [length_lend] at hscript
      exact hscript.imp_left fun hscript => occupant?_of_lend ht.ready hscript
    · rw [settle_of_lost hlost]
      exact h

/-- **What a visit does to each seat.** -/
theorem encounters (hm : m.Settled D.toInvariant) (h : visit steps i m = .ok () m') :
    Encounters D.toInvariant steps i m m' := by
  have hsettled : m'.Settled D.toInvariant := by
    have hreaches := World.reaches_visit steps i m 0 []
    rw [h] at hreaches
    have hsound : World.Sound D (.pass m 0 [i]) := hm
    exact World.Reaches.sound hreaches hsound
  cases hready : m.ready? i with
  | none =>
    rw [visit_apply, hready] at h
    cases h
    exact ⟨hsettled, Nat.le_refl _, Nat.le_refl _, fun j => .kept (fun _ => hready) rfl⟩
  | some t =>
    obtain ⟨o, turn, ht, rfl⟩ := exists_turn_of_visit hready h
    obtain ⟨p, hattends⟩ := ht.attends hm
    refine ⟨hsettled, ?_, hattends.fates.lastGroup, fun j => ?_⟩
    · rw [length_settle]
      have hlength := hattends.fates.seats.length
      rw [length_lend] at hlength
      exact hlength
    · by_cases hji : j = i
      · subst hji
        exact encounter_self hm ht
      · exact encounter_of_ne hm ht _ hji

end Visit

/-! ## 4. A pass -/

/-- The machine after so many visits of a pass. -/
def visited (steps : Nat) (m : Machine H) : Nat → Machine H
  | 0 => { m with visual := false }
  | k + 1 =>
    match visit steps k (visited steps m k) with
    | .ok _ m' => m'
    | .error _ m' => m'

theorem pass_apply (steps : Nat) (m : Machine H) :
    pass steps m =
      match (List.range m.queue.length).forM (visit steps) { m with visual := false } with
      | .error e m' => .error e m'
      | .ok _ m' => .ok (decide (m.queue.length < m'.queue.length)) m'.endPass := by
  simp only [pass, tick_bind_apply, tick_get_apply, tick_modify_apply]
  cases (List.range m.queue.length).forM (visit steps) { m with visual := false } <;> rfl

theorem forM_range_succ (steps n : Nat) :
    (List.range (n + 1)).forM (visit (H := H) steps) =
      (List.range n).forM (visit steps) >>= fun _ => visit steps n := by
  rw [List.range_succ]
  simp

/-- Where no visit fails, each is made in the state that the one before it left. -/
theorem visited_of_forM {steps n : Nat} {m m' : Machine H}
    (h : (List.range n).forM (visit steps) { m with visual := false } = .ok () m') :
    m' = m.visited steps n ∧
      ∀ i < n, visit steps i (m.visited steps i) = .ok () (m.visited steps (i + 1)) := by
  induction n generalizing m' with
  | zero =>
    cases h
    exact ⟨rfl, fun i hi => absurd hi (Nat.not_lt_zero i)⟩
  | succ n ih =>
    rw [forM_range_succ, tick_bind_apply] at h
    cases hrange : (List.range n).forM (visit steps) { m with visual := false } with
    | error e x =>
      rw [hrange] at h
      cases h
    | ok u x =>
      rw [hrange] at h
      dsimp only at h
      obtain ⟨rfl, hvisits⟩ := ih hrange
      have hlast : m.visited steps (n + 1) = m' := by
        simp only [visited, h]
      refine ⟨hlast.symm, fun i hi => ?_⟩
      rcases Nat.lt_succ_iff_lt_or_eq.mp hi with hlt | rfl
      · exact hvisits i hlt
      · rw [hlast]
        exact h

/-- So many visits, one after the other: the machine before each of them. -/
structure Tour (I : Invariant) (steps n : Nat) (ms : Nat → Machine H) : Prop where
  start : (ms 0).Settled I
  visits : ∀ i < n, visit steps i (ms i) = .ok () (ms (i + 1))

/-- The thread is started, or started over, between two states: it waits in the seat, and belongs
    to an event since. -/
def Starts (m m' : Machine H) (j : Nat) (t : Thread) : Prop :=
  m'.queue[j]? = some (.waiting t) ∧ m.lastGroup < t.group

/-- Nothing happens to a seat in some of the visits. -/
def Undisturbed (ms : Nat → Machine H) (j first last : Nat) : Prop :=
  ∀ k, first ≤ k → k < last → (ms (k + 1)).queue[j]? = (ms k).queue[j]?

/-- The thread waits in a seat after so many visits. -/
inductive Survives (steps n : Nat) (ms : Nat → Machine H) (j : Nat) (t : Thread) : Prop
  /-- It took its turn and went back. -/
  | yielded {t₀ : Thread} {turn : Turn H} (hj : j < n) (ht : Turns steps j (ms j) t₀ .yielded turn)
      (heq : turn.thread = t) (h : Undisturbed ms j (j + 1) n)
  /-- It was not ready, so it took no turn. -/
  | unready (hwaits : (ms 0).queue[j]? = some (.waiting t)) (hready : t.ready = false)
      (h : Undisturbed ms j 0 n)
  /-- It was started when its seat had been visited, or in a seat that will not be. -/
  | started {i : Nat} (hi : i < n) (hs : Starts (ms i) (ms (i + 1)) j t) (hj : j ≤ i ∨ n ≤ j)
      (h : Undisturbed ms j (i + 1) n)

namespace Undisturbed

variable {ms : Nat → Machine H} {j a b : Nat}

omit [Host H] in
theorem mono {a' b' : Nat} (h : Undisturbed ms j a b) (ha : a ≤ a') (hb : b' ≤ b) :
    Undisturbed ms j a' b' :=
  fun k hk hkb => h k (Nat.le_trans ha hk) (Nat.lt_of_lt_of_le hkb hb)

omit [Host H] in
theorem eq {k : Nat} (h : Undisturbed ms j a b) (ha : a ≤ k) (hb : k ≤ b) :
    (ms k).queue[j]? = (ms a).queue[j]? := by
  induction k, ha using Nat.le_induction with
  | base => rfl
  | succ k ha ih => exact (h k ha (by omega)).trans (ih (by omega))

omit [Host H] in
/-- There is a last visit in which something happens to a seat, or there is none. -/
theorem exists_last (ms : Nat → Machine H) (j n : Nat) :
    Undisturbed ms j 0 n ∨
      ∃ i < n, (ms (i + 1)).queue[j]? ≠ (ms i).queue[j]? ∧ Undisturbed ms j (i + 1) n := by
  induction n with
  | zero => exact .inl fun k _ hk => absurd hk (Nat.not_lt_zero k)
  | succ n ih =>
    by_cases hlast : (ms (n + 1)).queue[j]? = (ms n).queue[j]?
    · have hmore {a : Nat} (h : Undisturbed ms j a n) : Undisturbed ms j a (n + 1) := by
        intro k hk hkn
        rcases Nat.lt_succ_iff_lt_or_eq.mp hkn with hlt | rfl
        · exact h k hk hlt
        · exact hlast
      rcases ih with hnone | ⟨i, hi, hchange, hrest⟩
      · exact .inl (hmore hnone)
      · exact .inr ⟨i, by omega, hchange, hmore hrest⟩
    · exact .inr ⟨n, by omega, hlast, fun k hk hkn => by omega⟩

end Undisturbed

/-! ## 5. Threads in a pass -/

section Turns

variable {I : Invariant} {D : Discipline .cut} {steps i j : Nat} {m m' : Machine H}

/-- A visit has one turn at most. -/
theorem Turns.unique {t t' : Thread} {o o' : Outcome} {turn turn' : Turn H}
    (h : Turns steps i m t o turn) (h' : Turns steps i m t' o' turn') :
    t' = t ∧ o' = o ∧ turn' = turn := by
  obtain ⟨hready, target, htarget, hresume⟩ := h
  obtain ⟨hready', target', htarget', hresume'⟩ := h'
  cases hready.symm.trans hready'
  cases htarget.symm.trans htarget'
  cases hresume.symm.trans hresume'
  exact ⟨rfl, rfl, rfl⟩

/-- A thread that yields goes back to its seat. -/
theorem Turns.waits {t : Thread} {turn : Turn H} (h : Turns steps i m t .yielded turn)
    (hm : m.Settled D.toInvariant) (hvisit : visit steps i m = .ok () m') :
    m'.queue[i]? = some (.waiting turn.thread) := by
  obtain ⟨o, turn', h', rfl⟩ := exists_turn_of_visit h.ready hvisit
  obtain ⟨-, rfl, rfl⟩ := h'.unique h
  obtain ⟨p, hattends⟩ := h.attends hm
  have hseat : turn.seat = i := hattends.seat
  have hlent := (hattends.seated nofun).seat
  rw [hseat] at hlent
  exact getElem?_settle_self _ hlent

/-- A thread that is started in a visit is as an event starts it, and ready, unless it takes the
    seat that is visited. -/
theorem Encounter.fresh {u : Thread} (h : Encounter steps i m m' j) (hm : m.Settled I)
    (hs : Starts m m' j u) : u.Fresh ∧ (j = i ∨ u.ready = true) := by
  obtain ⟨hu, hnew⟩ := hs
  have hissued {t : Thread} {k : Nat} (ht : m.queue[k]? = some (.waiting t)) :
      t.group ≤ m.lastGroup :=
    hm.tidy.issued t (List.mem_of_getElem? ht)
  cases h with
  | kept _ h =>
    have hold := hissued (h.symm.trans hu)
    exact absurd hnew (Nat.not_lt.mpr hold)
  | yielded _ ht hsame h =>
    cases h.symm.trans hu
    have hold := hissued (getElem?_of_ready? ht.ready)
    rw [← hsame.group] at hold
    exact absurd hnew (Nat.not_lt.mpr hold)
  | finished _ _ h => cases h.symm.trans hu
  | stopped _ _ h => cases h.symm.trans hu
  | started _ hfresh _ _ hready h =>
    cases h.symm.trans hu
    exact ⟨hfresh, hready⟩

/-- A thread that waits after a visit and is of no event since waited in the same seat before. -/
theorem Encounter.back {u : Thread} (h : Encounter steps i m m' j)
    (hu : m'.queue[j]? = some (.waiting u)) (hold : u.group ≤ m.lastGroup) :
    ∃ u', m.queue[j]? = some (.waiting u') ∧ Thread.Same u' u := by
  cases h with
  | kept _ h => exact ⟨u, h.symm.trans hu, .refl u⟩
  | yielded hj ht hsame h =>
    cases h.symm.trans hu
    subst hj
    exact ⟨_, getElem?_of_ready? ht.ready, hsame⟩
  | finished _ _ h => cases h.symm.trans hu
  | stopped _ _ h => cases h.symm.trans hu
  | started _ _ hnew _ _ h =>
    cases h.symm.trans hu
    exact absurd hnew (Nat.not_lt.mpr hold)

end Turns

namespace Tour

variable {D : Discipline .cut} {steps n : Nat} {ms : Nat → Machine H}

theorem settled (h : Tour D.toInvariant steps n ms) {i : Nat} (hi : i ≤ n) :
    (ms i).Settled D.toInvariant := by
  induction i with
  | zero => exact h.start
  | succ i ih => exact (encounters (ih (by omega)) (h.visits i (by omega))).settled

theorem encounters (h : Tour D.toInvariant steps n ms) {i : Nat} (hi : i < n) :
    Encounters D.toInvariant steps i (ms i) (ms (i + 1)) :=
  Machine.encounters (h.settled (Nat.le_of_lt hi)) (h.visits i hi)

theorem lastGroup_le (h : Tour D.toInvariant steps n ms) {i k : Nat} (hik : i ≤ k) (hk : k ≤ n) :
    (ms i).lastGroup ≤ (ms k).lastGroup := by
  induction k, hik using Nat.le_induction with
  | base => exact Nat.le_refl _
  | succ k _ ih => exact Nat.le_trans (ih (by omega)) (h.encounters (by omega)).lastGroup

theorem issued (h : Tour D.toInvariant steps n ms) {i j : Nat} (hi : i ≤ n) {t : Thread}
    (ht : (ms i).queue[j]? = some (.waiting t)) : t.group ≤ (ms i).lastGroup :=
  (h.settled hi).tidy.issued t (List.mem_of_getElem? ht)

/-- A thread of an event before some visits waited in the same seat before them. -/
theorem back (h : Tour D.toInvariant steps n ms) {i k j : Nat} (hik : i ≤ k) (hk : k ≤ n)
    {u : Thread} (hu : (ms k).queue[j]? = some (.waiting u)) (hold : u.group ≤ (ms i).lastGroup) :
    ∃ u', (ms i).queue[j]? = some (.waiting u') ∧ Thread.Same u' u := by
  induction k, hik using Nat.le_induction generalizing u with
  | base => exact ⟨u, hu, .refl u⟩
  | succ k hik ih =>
    have hle := h.lastGroup_le hik (by omega)
    obtain ⟨u₁, hu₁, hsame₁⟩ :=
      ((h.encounters (by omega)).encounter j).back hu (Nat.le_trans hold hle)
    rw [hsame₁.group] at hold
    obtain ⟨u', hu', hsame⟩ := ih (by omega) hu₁ hold
    exact ⟨u', hu', hsame.trans hsame₁⟩

/-- Two threads of one script wait in one seat. -/
theorem seat_unique (h : Tour D.toInvariant steps n ms) {i j k : Nat} (hi : i ≤ n) {t u : Thread}
    (ht : (ms i).queue[j]? = some (.waiting t)) (hu : (ms i).queue[k]? = some (.waiting u))
    (hsame : Thread.Same t u) : j = k := by
  have hscript : (ms i).occupant? k = some (t.target, t.base) := by
    rw [occupant?_waiting hu, hsame.target, hsame.base]
  exact (h.settled hi).tidy.distinct j k _ (occupant?_waiting ht) hscript

/-- **No thread takes two turns.** -/
theorem once (h : Tour D.toInvariant steps n ms) {i k : Nat} (hi : i < n) (hk : k < n)
    {t u : Thread} (ht : (ms i).ready? i = some t) (hu : (ms k).ready? k = some u)
    (hsame : Thread.Same t u) : i = k := by
  -- the one that takes its turn later waited in its seat when the other took its turn
  have hlater {i k : Nat} (hik : i ≤ k) (hk : k < n) {t u : Thread}
      (ht : (ms i).ready? i = some t) (hu : (ms k).ready? k = some u) (hsame : Thread.Same t u) :
      i = k := by
    have ht := getElem?_of_ready? ht
    have hold : u.group ≤ (ms i).lastGroup := by
      rw [hsame.group]
      exact h.issued (by omega) ht
    obtain ⟨u', hu', hback⟩ := h.back hik (by omega) (getElem?_of_ready? hu) hold
    exact h.seat_unique (by omega) ht hu' (hsame.trans hback.symm)
  rcases Nat.le_total i k with hik | hki
  · exact hlater hik hk ht hu hsame
  · exact (hlater hki hi hu ht hsame.symm).symm

/-- **Who is started too late takes no turn**: in a seat at the end, in the seat that is visited, or
    in one that has been. -/
theorem starts_late (h : Tour D.toInvariant steps n ms) {i j k : Nat} (hi : i < n) {t u : Thread}
    (hs : Starts (ms i) (ms (i + 1)) j u) (hj : j ≤ i ∨ n ≤ j) (hk : k < n)
    (ht : (ms k).ready? k = some t) : ¬ Thread.Same u t := by
  intro hsame
  obtain ⟨hu, hnew⟩ := hs
  have ht := getElem?_of_ready? ht
  rcases Nat.lt_or_ge i k with hik | hki
  · have hold : t.group ≤ (ms (i + 1)).lastGroup := by
      rw [hsame.group]
      exact h.issued (by omega) hu
    obtain ⟨t', ht', hback⟩ := h.back hik (by omega) ht hold
    have hjk := h.seat_unique (by omega) hu ht' (hsame.trans hback.symm)
    omega
  · have hissued := h.issued (by omega) ht
    have hle := h.lastGroup_le hki (by omega)
    rw [hsame.group] at hissued
    exact absurd hnew (Nat.not_lt.mpr (Nat.le_trans hissued hle))

/-- **Who is started in time takes a turn**, from the entry of its script. -/
theorem starts_early (h : Tour D.toInvariant steps n ms) {i j : Nat} (hij : i < j) (hj : j < n)
    {u : Thread} (hs : Starts (ms i) (ms (i + 1)) j u)
    (hstill : (ms j).queue[j]? = some (.waiting u)) :
    (ms j).ready? j = some u ∧ u.Fresh := by
  have hi : i < n := by omega
  obtain ⟨hfresh, hready⟩ :=
    ((h.encounters hi).encounter j).fresh (h.settled (Nat.le_of_lt hi)) hs
  have hready : u.ready = true := hready.resolve_left (by omega)
  refine ⟨?_, hfresh⟩
  unfold ready?
  rw [hstill]
  exact if_pos hready

/-- A ready thread to whom nothing happens took its turn and went back. -/
theorem survives_of_ready (h : Tour D.toInvariant steps n ms) {i j : Nat} (hij : i ≤ j)
    (hj : j < n) {t : Thread} (hwaits : (ms i).queue[j]? = some (.waiting t))
    (hready : t.ready = true) (hrest : Undisturbed ms j i n) : Survives steps n ms j t := by
  have hbefore : (ms j).queue[j]? = some (.waiting t) :=
    (hrest.eq hij (Nat.le_of_lt hj)).trans hwaits
  have hafter : (ms (j + 1)).queue[j]? = some (.waiting t) :=
    (hrest.eq (by omega) hj).trans hwaits
  have hturn : (ms j).ready? j = some t := by
    unfold ready?
    rw [hbefore]
    exact if_pos hready
  cases (h.encounters hj).encounter j with
  | kept hidle => cases (hidle rfl).symm.trans hturn
  | yielded _ ht _ hseat =>
    cases hseat.symm.trans hafter
    exact .yielded hj ht rfl (hrest.mono (by omega) (Nat.le_refl n))
  | finished _ _ hseat => cases hseat.symm.trans hafter
  | stopped _ _ hseat => cases hseat.symm.trans hafter
  | started _ _ hnew _ _ hseat =>
    cases hseat.symm.trans hafter
    exact absurd hnew (Nat.not_lt.mpr (h.issued (Nat.le_of_lt hj) hbefore))

/-- **Who waits in the end.** -/
theorem survives_iff (h : Tour D.toInvariant steps n ms) (hn : (ms 0).queue.length = n) {j : Nat}
    {t : Thread} : (ms n).queue[j]? = some (.waiting t) ↔ Survives steps n ms j t := by
  constructor
  · intro hend
    rcases Undisturbed.exists_last ms j n with hnone | ⟨i, hi, hchange, hrest⟩
    · have hstart := (hnone.eq (Nat.zero_le n) (Nat.le_refl n)).symm.trans hend
      have hj : j < n := hn ▸ lt_of_getElem? hstart
      cases hready : t.ready with
      | true => exact h.survives_of_ready (Nat.zero_le j) hj hstart hready hnone
      | false => exact .unready hstart hready hnone
    · have hafter := (hrest.eq (by omega) (Nat.le_refl n)).symm.trans hend
      cases (h.encounters hi).encounter j with
      | kept _ hseat => exact absurd hseat hchange
      | yielded hj ht _ hseat =>
        cases hseat.symm.trans hafter
        subst hj
        exact .yielded hi ht rfl hrest
      | finished _ _ hseat => cases hseat.symm.trans hafter
      | stopped _ _ hseat => cases hseat.symm.trans hafter
      | started _ _ hnew _ hready hseat =>
        cases hseat.symm.trans hafter
        by_cases hlate : j ≤ i ∨ n ≤ j
        · exact .started hi ⟨hafter, hnew⟩ hlate hrest
        · have hready : t.ready = true := hready.resolve_left (by omega)
          exact h.survives_of_ready (by omega) (by omega) hafter hready hrest
  · intro hsurvives
    cases hsurvives with
    | yielded hj ht heq hrest =>
      rw [hrest.eq (by omega) (Nat.le_refl n), ← heq]
      exact ht.waits (h.settled (Nat.le_of_lt hj)) (h.visits j hj)
    | unready hwaits _ hrest => exact (hrest.eq (Nat.zero_le n) (Nat.le_refl n)).trans hwaits
    | started hi hs _ hrest => exact (hrest.eq (by omega) (Nat.le_refl n)).trans hs.1

end Tour

end Machine

/-- The queue after a pass: the threads that wait, in order, and all of them ready. -/
theorem Machine.queue_endPass {H : Type} (m : Machine H) :
    m.endPass.queue = m.threads.map fun t => .waiting { t with ready := true } := by
  unfold endPass threads
  rw [List.map_filterMap]
  refine List.filterMap_congr fun s _ => ?_
  cases s <;> rfl

/-- **A pass lets each thread take one turn at most, and loses none**, whatever the programs are.
    The seats that are there when it begins are visited once each, in order. Until it ends each seat
    keeps its place, and it is known what a visit does to it. No thread takes two turns. A thread
    that is started in a seat at the end, in the seat that is visited or in one that has been takes
    no turn; one that is started in a seat that is yet to be visited takes its turn from the entry
    of its script, if it is still there. After the pass the threads that wait are those who yielded,
    those who were not ready, and those who were started too late, unless they were stopped or
    replaced since; they keep their order, and all of them are ready. -/
theorem World.pass_runs_each_once {H : Type} [Host H] {p : Project} {programs : List Program}
    {o : Options} {host : H} {s : Surroundings} {m₀ : Machine H}
    (h : Machine.load p programs o host s = .ok m₀) {m : Machine H}
    (hw : World.Arises m₀
      (.pass { m with visual := false } m.queue.length (List.range m.queue.length)))
    {steps : Nat} {added : Bool} {m' : Machine H} (hpass : Machine.pass steps m = .ok added m') :
    let n := m.queue.length
    let ms := m.visited steps
    (∀ i < n, Machine.visit steps i (ms i) = .ok () (ms (i + 1))) ∧
    (∀ i < n, (ms i).queue.length ≤ (ms (i + 1)).queue.length ∧
      ∀ j, Machine.Encounter steps i (ms i) (ms (i + 1)) j) ∧
    (∀ i < n, ∀ k < n, ∀ t u a b x y, Machine.Turns steps i (ms i) t a x →
      Machine.Turns steps k (ms k) u b y → Thread.Same t u → i = k) ∧
    (∀ i < n, ∀ j u, Machine.Starts (ms i) (ms (i + 1)) j u → (j ≤ i ∨ n ≤ j) →
      ∀ k < n, ∀ t a x, Machine.Turns steps k (ms k) t a x → ¬ Thread.Same u t) ∧
    (∀ i j u, i < j → j < n → Machine.Starts (ms i) (ms (i + 1)) j u →
      (ms j).queue[j]? = some (.waiting u) →
        u.Fresh ∧ ∃ a x, Machine.Turns steps j (ms j) u a x) ∧
    m'.queue = (ms n).threads.map (fun t => .waiting { t with ready := true }) ∧
    ∀ j t, (ms n).queue[j]? = some (.waiting t) ↔ Machine.Survives steps n ms j t := by
  intro n ms
  have hstart : World.Sound (Discipline.none .cut) (.rest m₀) :=
    Machine.settled_load (fun _ _ => trivial) h
  have hsettled : (ms 0).Settled (Discipline.none .cut).toInvariant := hw.sound hstart
  rw [Machine.pass_apply] at hpass
  cases hrange : (List.range m.queue.length).forM (Machine.visit steps)
      { m with visual := false } with
  | error e x =>
    rw [hrange] at hpass
    cases hpass
  | ok u x =>
    rw [hrange] at hpass
    cases hpass
    obtain ⟨rfl, hvisits⟩ := Machine.visited_of_forM hrange
    have htour : Machine.Tour (Discipline.none .cut).toInvariant steps n ms := ⟨hsettled, hvisits⟩
    refine ⟨hvisits, fun i hi => ?_, ?_, ?_, ?_, Machine.queue_endPass _, fun j t => ?_⟩
    · exact ⟨(htour.encounters hi).length, (htour.encounters hi).encounter⟩
    · intro i hi k hk t u a b x y ht hu hsame
      exact htour.once hi hk ht.ready hu.ready hsame
    · intro i hi j u hs hlate k hk t a x ht
      exact htour.starts_late hi hs hlate hk ht.ready
    · intro i j u hij hj hs hstill
      obtain ⟨hready, hfresh⟩ := htour.starts_early hij hj hs hstill
      obtain ⟨a, x, ht, -⟩ := Machine.exists_turn_of_visit hready (hvisits j hj)
      exact ⟨hfresh, a, x, ht⟩
    · exact htour.survives_iff rfl

/-- Three scripts that the green flag starts. The first sends a message that starts the second over
    and one more, and waits; the second waits; the third starts the first over. -/
def crossing : Program where
  continuations := [⟨0, [.broadcast (.const (.text "on")) false, .forceQueue 4]⟩,
    ⟨1, [.forceQueue 1]⟩, ⟨2, [.broadcast (.const (.text "back")) false]⟩, ⟨3, []⟩, ⟨4, []⟩]
  listeners := [(.flag, [0, 1, 2]), (.message "on", [1, 3]), (.message "back", [0])]

/-- The machine of the three scripts after the green flag, before the pass. -/
def crossing? : Option (Machine Headless) :=
  (Machine.load echoingProject [{}, crossing] {} {} .still).toOption.bind
    (Request.outcome? [.greenFlag])

/-- The machine after a pass that does not fail, and whether threads were added. -/
def Machine.afterPass? {H : Type} [Host H] (steps : Nat) (m : Machine H) :
    Option (Bool × Machine H) :=
  match pass steps m with
  | .ok added m' => some (added, m')
  | .error _ _ => none

theorem Machine.pass_of_afterPass? {H : Type} [Host H] {steps : Nat} {m m' : Machine H}
    {added : Bool} (h : m.afterPass? steps = some (added, m')) : pass steps m = .ok added m' := by
  unfold afterPass? at h
  split at h
  · rename_i hpass
    cases h
    exact hpass
  · cases h

theorem World.crossing_pass :
    ∃ m₀ m m' : Machine Headless, ∃ added,
      Machine.load echoingProject [{}, crossing] {} {} .still = .ok m₀ ∧
      World.Arises m₀
        (.pass { m with visual := false } m.queue.length (List.range m.queue.length)) ∧
      Machine.pass 9 m = .ok added m' ∧ m.threads.map (fun t => (t.base, t.group)) =
        [(0, 1), (1, 1), (2, 1)] ∧
      m'.threads.map (fun t => (t.base, t.group, t.ready)) =
        [(0, 3, true), (1, 2, true), (3, 2, true)] ∧
      ∀ j t, (m.visited 9 m.queue.length).queue[j]? = some (.waiting t) ↔
        Machine.Survives 9 m.queue.length (m.visited 9) j t := by
  have hrun : crossing?.bind (fun m => (m.afterPass? 9).map fun after =>
      (m.threads.map (fun t => (t.base, t.group)),
        after.2.threads.map fun t => (t.base, t.group, t.ready))) =
      some ([(0, 1), (1, 1), (2, 1)], [(0, 3, true), (1, 2, true), (3, 2, true)]) := by
    decide +kernel
  obtain ⟨m, hm, hrun⟩ := Option.bind_eq_some_iff.mp hrun
  obtain ⟨⟨added, m'⟩, hpass, hthreads⟩ := Option.map_eq_some_iff.mp hrun
  obtain ⟨m₀, hload, houtcome⟩ := Option.bind_eq_some_iff.mp hm
  have hpass := Machine.pass_of_afterPass? hpass
  have hloaded := eq_ok_of_toOption hload
  have hreaches := (World.reaches_outcome? houtcome).tail (.start m)
  obtain ⟨-, -, -, -, -, -, hsurvives⟩ := World.pass_runs_each_once hloaded hreaches hpass
  exact ⟨m₀, m, m', added, hloaded, hreaches, hpass, congrArg Prod.fst hthreads,
    congrArg Prod.snd hthreads, hsurvives⟩

end BlockScript
