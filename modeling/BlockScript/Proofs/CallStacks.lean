import BlockScript.Proofs.Groups
import BlockScript.Proofs.Successions

/-!
# The calls of a thread

A thread keeps the procedures that it is inside of, and two views of them: for each procedure the
depths of its calls, and the number of calls that keep the thread from yielding. Both are kept up
step by step, as procedures are entered and left. They are always what they would be if they were
made anew from the calls.

* `Activations.of`: the depths of the calls, made anew;
* `Thread.Booked`: both views are right;
* `StackOp.Balanced`: entering and leaving in pairs;
* `Thread.endCall?_of_balanced`: what a thread does inside of a procedure is forgotten behind it;
* `Thread.Nested`: calls from inside of one that keeps the thread from yielding do so too;
* `World.calls_exact`: all of it, for threads on their own and in every run.
-/

namespace BlockScript

/-! ## 1. Depths -/

namespace Activations

/-- The depths of calls of these procedures, innermost first. -/
def of : List ProcId → Activations
  | [] => []
  | p :: rest => (of rest).enter p rest.length

variable {a : Activations} {p q : ProcId} {d : Nat}

theorem depths_cons (r : ProcId) (ds : List Nat) (rest : Activations) (p : ProcId) :
    depths ((r, ds) :: rest) p = if p = r then ds else rest.depths p := by
  unfold depths
  rw [List.lookup_cons]
  by_cases h : p = r
  · simp [h]
  · simp [h, beq_eq_false_iff_ne.mpr h]

/-- Entering a procedure adds a depth to its own, and to no others. -/
theorem depths_enter : (a.enter p d).depths q = if q = p then d :: a.depths q else a.depths q := by
  induction a with
  | nil => exact depths_cons p [d] [] q
  | cons e rest ih =>
    obtain ⟨r, ds⟩ := e
    unfold enter
    by_cases hr : r = p
    · subst hr
      rw [if_pos rfl, depths_cons, depths_cons]
      split <;> rfl
    · rw [if_neg hr, depths_cons, depths_cons, ih]
      by_cases hq : q = r
      · rw [if_pos hq, if_pos hq, if_neg (hq ▸ hr)]
      · rw [if_neg hq, if_neg hq]

/-- What is entered is kept once. -/
theorem nodup_enter (h : (a.map (·.1)).Nodup) : ((a.enter p d).map (·.1)).Nodup := by
  have hmem {x : ProcId} {a : Activations} (hx : x ∈ (a.enter p d).map (·.1)) :
      x = p ∨ x ∈ a.map (·.1) := by
    induction a with
    | nil => simpa [enter] using hx
    | cons e rest ih =>
      unfold enter at hx
      split at hx
      · exact .inr hx
      · rw [List.map_cons, List.mem_cons] at hx ⊢
        rcases hx with hx | hx
        · exact .inr (.inl hx)
        · exact (ih hx).imp_right .inr
  induction a with
  | nil => simp [enter]
  | cons e rest ih =>
    unfold enter
    split
    · exact h
    · next hne =>
      obtain ⟨hnot, hrest⟩ := List.nodup_cons.mp h
      refine List.nodup_cons.mpr ⟨fun hin => ?_, ih hrest⟩
      rcases hmem hin with heq | hin
      · exact hne heq
      · exact hnot hin

theorem ne_nil_of_mem_enter (h : ∀ e ∈ a, e.2 ≠ []) : ∀ e ∈ a.enter p d, e.2 ≠ [] := by
  induction a with
  | nil => simp [enter]
  | cons e rest ih =>
    obtain ⟨r, ds⟩ := e
    obtain ⟨hds, hrest⟩ := List.forall_mem_cons.mp h
    unfold enter
    split
    · exact List.forall_mem_cons.mpr ⟨List.cons_ne_nil _ _, hrest⟩
    · exact List.forall_mem_cons.mpr ⟨hds, ih hrest⟩

/-- **To leave a procedure undoes entering it**, if no procedure is kept without a call. -/
theorem leave_enter (h : ∀ e ∈ a, e.2 ≠ []) : (a.enter p d).leave p = a := by
  induction a with
  | nil => simp [enter, leave]
  | cons e rest ih =>
    obtain ⟨r, ds⟩ := e
    obtain ⟨hds, hrest⟩ := List.forall_mem_cons.mp h
    by_cases hr : r = p
    · cases ds with
      | nil => exact absurd rfl hds
      | cons d' ds => simp [enter, leave, hr]
    · simp [enter, leave, hr, ih hrest]

theorem ne_nil_of_mem_of (procs : List ProcId) : ∀ e ∈ of procs, e.2 ≠ [] := by
  induction procs with
  | nil => exact fun _ h => (by cases h)
  | cons p rest ih => exact ne_nil_of_mem_enter ih

theorem nodup_of (procs : List ProcId) : ((of procs).map (·.1)).Nodup := by
  induction procs with
  | nil => exact List.nodup_nil
  | cons p rest ih => exact nodup_enter ih

/-- **The depths of a procedure** are those at which it was called, from the outside in. -/
theorem depths_of (procs : List ProcId) (p : ProcId) :
    ((of procs).depths p).reverse =
      (List.range procs.length).filter fun i => procs.reverse[i]? = some p := by
  induction procs with
  | nil => rfl
  | cons q rest ih =>
    have hbelow : (List.range rest.length).filter (fun i => (q :: rest).reverse[i]? = some p) =
        (List.range rest.length).filter fun i => rest.reverse[i]? = some p := by
      refine List.filter_congr fun i hi => ?_
      rw [List.reverse_cons, List.getElem?_append_left (by simpa using hi)]
    rw [of, depths_enter, List.length_cons, List.range_succ, List.filter_append, hbelow, ← ih]
    by_cases hp : p = q
    · subst hp
      simp
    · simp [hp, Ne.symm hp]

/-- **The innermost call of a procedure is among so many innermost calls** just if one of them is a
    call of it. -/
theorem head?_depths_of (procs : List ProcId) (p : ProcId) (window : Nat) :
    (∃ d, ((of procs).depths p).head? = some d ∧ procs.length ≤ d + window) ↔
      p ∈ procs.take window := by
  induction procs generalizing window with
  | nil => simp [of, depths]
  | cons q rest ih =>
    rw [of, depths_enter]
    by_cases hp : p = q
    · subst hp
      cases window <;> simp
    · rw [if_neg hp]
      cases window with
      | zero =>
        have hlt : ∀ d ∈ (of rest).depths p, d < rest.length := by
          intro d hd
          have hmem := List.mem_reverse.mpr hd
          rw [depths_of] at hmem
          exact List.mem_range.mp (List.mem_filter.mp hmem).1
        simp only [List.take_zero, List.not_mem_nil, iff_false, not_exists, not_and]
        intro d hd
        have := hlt d (List.mem_of_mem_head? hd)
        simp only [List.length_cons]
        omega
      | succ window =>
        rw [List.take_succ_cons, List.mem_cons, or_iff_right hp, ← ih window]
        simp only [List.length_cons]
        constructor
        · rintro ⟨d, hd, hle⟩
          exact ⟨d, hd, by omega⟩
        · rintro ⟨d, hd, hle⟩
          exact ⟨d, hd, by omega⟩

end Activations

/-! ## 2. Both views of the calls -/

namespace Thread

variable {t t' : Thread}

/-- What a thread keeps about its calls is right. -/
structure Booked (t : Thread) : Prop where
  active : t.active = .of (t.calls.map (·.procedure))
  warp : t.warp = t.calls.countP (·.warp)

/-- The thread is inside of the same calls. -/
theorem Booked.tops (h : t.Booked) (ht : Tops t t') (hactive : t'.active = t.active) :
    t'.Booked := by
  refine ⟨?_, ht.warp_eq h.warp⟩
  rw [hactive, h.active]
  rcases ht.calls with ⟨hc, hc'⟩ | ⟨c, c', rest, hc, hc', hsame⟩
  · rw [hc, hc']
  · rw [hc, hc', List.map_cons, List.map_cons, hsame.procedure]

/-- A thread that goes on keeps the depths of its calls. -/
theorem active_of_onward {s : Stmt} {code : List Stmt} (h : Act.Onward s t code t') :
    t'.active = t.active := by
  have hsaved (saved : List Registers) : (t.withSaveStack saved).active = t.active := by
    unfold withSaveStack
    cases t.calls <;> rfl
  cases h with
  | save => exact hsaved _
  | restore h =>
    obtain ⟨_, _, -, rfl⟩ := exists_of_restore? h
    exact hsaved _
  | endCall | forever => rfl
  | done _ _ _ h | yes h | no h | «repeat» _ h | «while» h => exact h.active

theorem Booked.onward (h : t.Booked) {s : Stmt} {code : List Stmt} (ho : Act.Onward s t code t') :
    t'.Booked :=
  h.tops ho.tops (active_of_onward ho)

theorem booked_start (target : TargetId) (base : Label) (group : GroupId) :
    (start target base group).Booked :=
  ⟨rfl, rfl⟩

/-- Entering a procedure adds to both views. -/
theorem Booked.call (h : t.Booked) (p : ProcId) (resume : Label) (args : List Value)
    (warp : Bool) : (t.call p resume args warp).Booked := by
  refine ⟨?_, warp_call h.warp _ _ _ _⟩
  show t.active.enter p t.calls.length = _
  rw [h.active]
  simp [Thread.call, Activations.of]

/-- Leaving a procedure takes away from both views what entering it added. -/
theorem Booked.endCall (h : t.Booked) {l : Label} (he : t.endCall? = some (l, t')) : t'.Booked := by
  refine ⟨?_, warp_endCall? h.warp he⟩
  have hactive := h.active
  obtain ⟨c, rest, hcalls, rfl, rfl⟩ := exists_of_endCall? he
  rw [hcalls] at hactive
  show t.active.leave c.procedure = _
  rw [hactive]
  exact Activations.leave_enter (Activations.ne_nil_of_mem_of _)

/-- **So many innermost calls** are looked at, neither more nor fewer. -/
theorem Booked.recentlyActive_iff (h : t.Booked) (p : ProcId) (window : Nat) :
    t.recentlyActive p window = true ↔ ∃ c ∈ t.calls.take window, c.procedure = p := by
  have hhead := Activations.head?_depths_of (t.calls.map (·.procedure)) p window
  rw [← h.active, List.length_map, ← List.map_take, List.mem_map] at hhead
  rw [← hhead]
  unfold recentlyActive
  cases t.active.depths p with
  | nil => simp
  | cons d ds => simp

end Thread

/-! ## 3. Entering and leaving in pairs -/

/-- What is done to the calls of a thread. -/
inductive StackOp
  /-- A procedure is entered. -/
  | push (p : ProcId) (resume : Label) (args : List Value) (warp : Bool)
  /-- The innermost procedure is left. -/
  | pop
  /-- The registers are copied. -/
  | save
  /-- The latest copy is taken back. -/
  | restore

namespace StackOp

/-- The thread afterwards. Where there is nothing to leave or to take back it stays as it is. -/
def apply (t : Thread) : StackOp → Thread
  | push p resume args warp => t.call p resume args warp
  | pop => (t.endCall?.map (·.2)).getD t
  | save => t.save
  | restore => t.restore?.getD t

/-- The thread after several of them. -/
def run (ops : List StackOp) (t : Thread) : Thread := ops.foldl apply t

/-- How many procedures are entered and not left again, with so many before, if none is left that
    is not among them. -/
def level? : Nat → List StackOp → Option Nat
  | n, [] => some n
  | n, push .. :: ops => level? (n + 1) ops
  | 0, pop :: _ => none
  | n + 1, pop :: ops => level? n ops
  | n, save :: ops => level? n ops
  | n, restore :: ops => level? n ops

/-- Each procedure that is entered is left, and no other. Copies need not match. -/
def Balanced (ops : List StackOp) : Prop := level? 0 ops = some 0

instance (ops : List StackOp) : Decidable (Balanced ops) := inferInstanceAs (Decidable (_ = _))

end StackOp

namespace Thread

variable {t u u' : Thread} {l : Label} {n : Nat}

theorem Booked.apply (h : t.Booked) (op : StackOp) : (op.apply t).Booked := by
  cases op with
  | push p resume args warp => exact h.call p resume args warp
  | pop =>
    show ((t.endCall?.map (·.2)).getD t).Booked
    cases hend : t.endCall? with
    | none => exact h
    | some x => exact h.endCall hend
  | save => exact h.onward (.save t)
  | restore =>
    show (t.restore?.getD t).Booked
    cases hrestore : t.restore? with
    | none => exact h
    | some t' => exact h.onward (.restore hrestore)

/-- **Whatever is done to its calls, a thread keeps both views right.** -/
theorem Booked.run (h : t.Booked) (ops : List StackOp) : (StackOp.run ops t).Booked := by
  induction ops generalizing t with
  | nil => exact h
  | cons op ops ih => exact ih (h.apply op)

/-- The thread has entered a procedure, with where to go on behind it, and so many inside of it.
    Apart from its calls and both views of them, only its registers may differ. -/
def Upon (t : Thread) (l : Label) (n : Nat) (u : Thread) : Prop :=
  ∃ rs inner c active warp,
    u = { t with registers := rs, calls := inner ++ c :: t.calls, active, warp } ∧
      inner.length = n ∧ c.resume = l ∧ c.caller = t.registers

namespace Upon

theorem call (t : Thread) (p : ProcId) (l : Label) (args : List Value) (warp : Bool) :
    Upon t l 0 (t.call p l args warp) :=
  ⟨_, [], _, _, _, rfl, rfl, rfl, rfl⟩

theorem push (h : Upon t l n u) (p : ProcId) (resume : Label) (args : List Value) (warp : Bool) :
    Upon t l (n + 1) (u.call p resume args warp) := by
  obtain ⟨_, inner, c, _, _, rfl, rfl, hc⟩ := h
  exact ⟨_, _ :: inner, c, _, _, rfl, rfl, hc⟩

theorem pop (h : Upon t l (n + 1) u) : Upon t l n (StackOp.pop.apply u) := by
  obtain ⟨_, inner, c, _, _, rfl, hlength, hc⟩ := h
  cases inner with
  | nil => cases hlength
  | cons d inner => exact ⟨_, inner, c, _, _, rfl, Nat.succ.inj hlength, hc⟩

/-- Only copies of the innermost procedure change. -/
theorem withSaveStack (h : Upon t l n u) (saved : List Registers) :
    Upon t l n (u.withSaveStack saved) := by
  obtain ⟨_, inner, c, _, _, rfl, hlength, hc⟩ := h
  cases inner with
  | nil => exact ⟨_, [], { c with saved }, _, _, rfl, hlength, hc⟩
  | cons d inner => exact ⟨_, { d with saved } :: inner, c, _, _, rfl, hlength, hc⟩

theorem restore (h : Upon t l n u) : Upon t l n (StackOp.restore.apply u) := by
  show Upon t l n (u.restore?.getD u)
  unfold Thread.restore?
  cases u.saveStack with
  | nil => exact h
  | cons rs rest =>
    obtain ⟨_, inner, c, active, warp, heq, hc⟩ := h.withSaveStack rest
    refine ⟨rs, inner, c, active, warp, ?_, hc⟩
    dsimp only [Option.getD_some]
    rw [heq]

/-- **What is done inside of the procedure** changes nothing below it. -/
theorem run (h : Upon t l n u) {ops : List StackOp} {k : Nat}
    (hlevel : StackOp.level? n ops = some k) : Upon t l k (StackOp.run ops u) := by
  induction ops generalizing n u with
  | nil =>
    cases hlevel
    exact h
  | cons op ops ih =>
    cases op with
    | push p resume args warp => exact ih (h.push p resume args warp) hlevel
    | pop =>
      cases n with
      | zero => cases hlevel
      | succ n => exact ih h.pop hlevel
    | save => exact ih (h.withSaveStack _) hlevel
    | restore => exact ih h.restore hlevel

/-- Leaving the procedure itself gives the thread back that entered it. -/
theorem endCall (h : Upon t l 0 u) (ht : t.Booked) (hu : u.Booked) : u.endCall? = some (l, t) := by
  obtain ⟨rs, inner, c, active, warp, rfl, hlength, rfl, hcaller⟩ := h
  obtain rfl := List.length_eq_zero_iff.mp hlength
  have hbooked := hu.endCall rfl
  -- both views are right on both sides, and so they are the same
  have hactive : active.leave c.procedure = t.active := hbooked.active.trans ht.active.symm
  have hwarp : (if c.warp then warp - 1 else warp) = t.warp := hbooked.warp.trans ht.warp.symm
  show some (c.resume,
    { t with
      registers := c.caller, active := active.leave c.procedure
      warp := if c.warp then warp - 1 else warp }) = _
  rw [hcaller, hactive, hwarp]

end Upon

/-- **A thread that enters a procedure and leaves it is as before**, whatever it enters and leaves on
    the way, and whatever it copies. -/
theorem Booked.endCall?_of_balanced (h : t.Booked) (p : ProcId) (l : Label) (args : List Value)
    (warp : Bool) {ops : List StackOp} (hops : StackOp.Balanced ops) :
    (StackOp.run ops (t.call p l args warp)).endCall? = some (l, t) :=
  ((Upon.call t p l args warp).run hops).endCall h ((h.call p l args warp).run ops)

end Thread

/-- What a thread keeps about its calls is exact. -/
structure Thread.Exact (t : Thread) : Prop where
  /-- For each procedure, where it stands among the calls, from the outside in. -/
  depths : ∀ p, (t.active.depths p).reverse = (List.range t.calls.length).filter fun i =>
    (t.calls.map (·.procedure)).reverse[i]? = some p
  distinct : (t.active.map (·.1)).Nodup
  /-- No procedure is kept without a call. -/
  called : ∀ e ∈ t.active, e.2 ≠ []
  warp : t.warp = t.calls.countP (·.warp)
  /-- To leave the innermost procedure never counts below zero. -/
  counted : ∀ c, t.calls.head? = some c → c.warp = true → 0 < t.warp
  bounded : t.warp ≤ t.calls.length
  recent : ∀ p window, t.recentlyActive p window = true ↔ ∃ c ∈ t.calls.take window, c.procedure = p
  /-- Behind a procedure the thread goes on where it should, and is as it was before. -/
  returns : ∀ p resume args warp ops, StackOp.Balanced ops →
    (StackOp.run ops (t.call p resume args warp)).endCall? = some (resume, t)

theorem Thread.Booked.toExact {t : Thread} (h : t.Booked) : t.Exact where
  depths p := by rw [h.active, Activations.depths_of, List.length_map]
  distinct := by
    rw [h.active]
    exact Activations.nodup_of _
  called := by
    rw [h.active]
    exact Activations.ne_nil_of_mem_of _
  warp := h.warp
  counted c hc hwarp := by
    rw [h.warp]
    exact List.countP_pos_iff.mpr ⟨c, List.mem_of_mem_head? hc, hwarp⟩
  bounded := by
    rw [h.warp]
    exact List.countP_le_length
  recent := h.recentlyActive_iff
  returns p resume args warp _ := h.endCall?_of_balanced p resume args warp

/-! ## 4. Calls that keep a thread from yielding -/

namespace Thread

variable {t t' : Thread}

/-- Calls from inside of one that keeps the thread from yielding do so too. -/
def Nested (t : Thread) : Prop :=
  t.calls.Pairwise fun above below => below.warp = true → above.warp = true

/-- What holds of the calls of a thread in a run. -/
structure Stacked (t : Thread) : Prop where
  booked : t.Booked
  nested : t.Nested

namespace Stacked

theorem tops (h : t.Stacked) (ht : Tops t t') (hactive : t'.active = t.active) : t'.Stacked := by
  refine ⟨h.booked.tops ht hactive, ?_⟩
  have hnested := h.nested
  unfold Nested at hnested ⊢
  rcases ht.calls with ⟨hc, hc'⟩ | ⟨c, c', rest, hc, hc', hsame⟩
  · rw [hc']
    exact .nil
  · rw [hc] at hnested
    rw [hc', List.pairwise_cons, hsame.warp]
    exact List.pairwise_cons.mp hnested

/-- A call is made to keep the thread from yielding if another one does already. -/
theorem call (h : t.Stacked) (p : ProcId) (resume : Label) (args : List Value) (warp : Bool) :
    (t.call p resume args (warp || 0 < t.warp)).Stacked := by
  refine ⟨h.booked.call _ _ _ _, List.pairwise_cons.mpr ⟨fun below hbelow hwarp => ?_, h.nested⟩⟩
  have hpos : 0 < t.warp := by
    rw [h.booked.warp]
    exact List.countP_pos_iff.mpr ⟨below, hbelow, hwarp⟩
  show (warp || decide (0 < t.warp)) = true
  simp [hpos]

theorem endCall (h : t.Stacked) {l : Label} (he : t.endCall? = some (l, t')) : t'.Stacked := by
  refine ⟨h.booked.endCall he, ?_⟩
  obtain ⟨c, rest, hcalls, rfl, rfl⟩ := exists_of_endCall? he
  have hnested := h.nested
  unfold Nested at hnested
  rw [hcalls] at hnested
  exact (List.pairwise_cons.mp hnested).2

theorem departs (h : t.Stacked) {p : Program} {s : Stmt} {l : Label}
    (hd : Act.Departs p s t l t') : t'.Stacked := by
  cases hd with
  | queue | forceQueue => exact h
  | endCall he => exact h.endCall he
  | call _ hk => exact (h.tops hk.tops hk.active).call _ _ _ _

/-- **A thread is kept from yielding** just if its innermost call does so. -/
theorem warp_pos_iff (h : t.Stacked) :
    0 < t.warp ↔ ∃ c, t.calls.head? = some c ∧ c.warp = true := by
  have hnested := h.nested
  unfold Nested at hnested
  rw [h.booked.warp, List.countP_pos_iff]
  cases hcalls : t.calls with
  | nil => simp
  | cons c rest =>
    rw [hcalls] at hnested
    obtain ⟨hfirst, -⟩ := List.pairwise_cons.mp hnested
    simp only [List.head?_cons, Option.some.injEq, exists_eq_left']
    constructor
    · rintro ⟨d, hd, hwarp⟩
      rcases List.mem_cons.mp hd with rfl | hd
      · exact hwarp
      · exact hfirst d hd hwarp
    · exact fun hwarp => ⟨c, List.mem_cons_self, hwarp⟩

end Stacked

end Thread

/-- **Threads keep right what they keep about their calls.** -/
def Discipline.stacking (R : Rules) : Discipline R where
  program _ := True
  thread _ t := t.Stacked
  start _ _ target group := ⟨Thread.booked_start target _ group, List.Pairwise.nil⟩
  ready h _ := ⟨⟨h.booked.active, h.booked.warp⟩, h.nested⟩
  working _ t _ _ := t.Stacked
  enter _ h _ := h
  onward _ h ho := h.tops ho.tops (Thread.active_of_onward ho)
  jump _ h hd _ := h.departs hd
  yield _ h hd :=
    have hd := h.departs hd
    ⟨⟨hd.booked.active, hd.booked.warp⟩, hd.nested⟩

namespace Act

variable {H : Type} [Host H] {t t' : Turn H}

/-- **A thread that is kept from yielding yields only where it has to.** -/
theorem eq_forceQueue_of_yield {s : Stmt} {k : Label} (h : exec s t = .ok (.leave (.yield k)) t')
    (hwarp : 0 < t.thread.warp) : s = .forceQueue k := by
  have hdeparts := exec_departs h rfl
  cases s with
  | forceQueue l =>
    cases h
    rfl
  | queue l =>
    have hqueue : exec (.queue l) t =
        .ok (.leave (if 0 < t.thread.warp then .jump l else .yield l)) t := rfl
    rw [hqueue, if_pos hwarp] at h
    cases h
  | endCall =>
    rw [exec_endCall] at h
    split at h <;> cases h
  | call p args resume =>
    rw [exec_call] at h
    split at h
    · cases h
    · split at h
      · cases h
      · next values t₁ hvalues =>
        have hmade : Made (Sensing True) _ (args.mapM (eval (H := H))) :=
          made_evalAll fun e _ => e.frees_true
        have hkin : Thread.Kin t.thread t₁.thread := hmade.keepsThread_sensing.of_ok hvalues
        have hwarp : 0 < t₁.thread.warp := by
          rw [hkin.warp]
          exact hwarp
        simp [hwarp] at h
  | _ => cases hdeparts

end Act

namespace World

variable {H : Type}

/-- The threads of a state, those that wait and the one at work. -/
def threads : World H → List Thread
  | .rest m => m.threads
  | .pass m _ _ => m.threads
  | .turn t _ _ _ _ => t.thread :: t.machine.threads

/-- Whether the thread at work is about to yield where it has to. -/
def isForced : World H → Bool
  | .turn _ _ (.forceQueue _ :: _) _ _ => true
  | _ => false

theorem exists_of_isForced {w : World H} (h : w.isForced = true) :
    ∃ t l k code length seats, w = .turn t l (.forceQueue k :: code) length seats := by
  unfold isForced at h
  split at h
  · exact ⟨_, _, _, _, _, _, rfl⟩
  · cases h

variable [Host H]

/-- In every state, all threads keep right what they keep about their calls. -/
theorem Arises.stacked {p : Project} {programs : List Program} {o : Options} {host : H}
    {s : Surroundings} {m : Machine H} {w : World H}
    (hload : Machine.load p programs o host s = .ok m) (h : Arises m w) :
    ∀ t ∈ w.threads, t.Stacked := by
  have hstart : World.Sound (.stacking .cut) (.rest m) :=
    Machine.settled_load (fun _ _ => trivial) hload
  have hw := h.sound hstart
  have hwaiting {m' : Machine H} (hm : m'.Sound (Discipline.stacking .cut).toInvariant) :
      ∀ t ∈ m'.threads, t.Stacked := by
    intro t ht
    obtain ⟨target, -, hstacked⟩ := hm.thread t (Machine.mem_threads.mp ht)
    exact hstacked
  cases w with
  | rest | pass => exact hwaiting (Machine.Settled.sound hw)
  | turn =>
    obtain ⟨⟨hm, -⟩, -, hworking⟩ := hw
    exact List.forall_mem_cons.mpr ⟨hworking, hwaiting hm⟩

/-- **What a thread keeps about its calls is exact.**

    Let procedures be entered and left and registers be copied and taken back in any order, from the
    start of a thread. Then for each procedure the thread has the depths of its calls, from the
    outside in, and nothing under procedures that it is not inside of. It counts the calls that keep
    it from yielding, and never counts below zero. Whether a procedure is among so many innermost
    ones is answered rightly. And if it enters a procedure, enters and leaves others in pairs, and
    leaves the procedure, it goes on where it should and is as it was before.

    In every state of every run, whatever the programs are, all this holds of all threads too, and
    calls from inside of one that keeps the thread from yielding do so too. So a thread is kept from
    yielding just if its innermost call does so. Then it yields only where it has to. -/
theorem calls_exact :
    (∀ (target : TargetId) (base : Label) (group : GroupId) (ops : List StackOp),
      (StackOp.run ops (.start target base group)).Exact) ∧
    (∀ (p : Project) (programs : List Program) (o : Options) (host : H) (s : Surroundings)
      (m : Machine H) (w : World H), Machine.load p programs o host s = .ok m → Arises m w →
      ∀ t ∈ w.threads, t.Exact ∧
        t.calls.Pairwise (fun above below => below.warp = true → above.warp = true) ∧
        (0 < t.warp ↔ ∃ c, t.calls.head? = some c ∧ c.warp = true)) ∧
    ∀ (s : Stmt) (t t' : Turn H) (k : Label), Act.exec s t = .ok (.leave (.yield k)) t' →
      0 < t.thread.warp → s = .forceQueue k := by
  refine ⟨fun target base group ops => ((Thread.booked_start target base group).run ops).toExact,
    fun p programs o host s m w hload hw t ht => ?_,
    fun s t t' k => Act.eq_forceQueue_of_yield⟩
  have hstacked := hw.stacked hload t ht
  exact ⟨hstacked.booked.toExact, hstacked.nested, hstacked.warp_pos_iff⟩

end World

/-- A script inside of a procedure that keeps it from yielding, and of another one inside of that,
    which would not. -/
def diving : Program where
  continuations := [⟨0, [.call 0 [] 9]⟩, ⟨1, [.call 1 [] 8]⟩, ⟨2, [.forceQueue 2]⟩]
  procedures := [⟨"dive", 1, true, []⟩, ⟨"sink", 2, false, []⟩]
  listeners := [(.flag, [0])]

/-- The script, when it is inside of both. -/
def diving? : Option (Machine Headless × World Headless) :=
  (Machine.load echoingProject [{}, diving] {} {} .still).toOption.bind fun m =>
    ((World.rest m.greenFlag.2).seek? .cut World.isForced 9).map (Prod.mk m)

/-- Both calls keep the script from yielding, until it has to. -/
theorem World.diving_exact :
    ∃ (m : Machine Headless) (u : Turn Headless) (l k : Label) (code : List Stmt) (length : Nat)
      (seats : List Nat),
      Machine.load echoingProject [{}, diving] {} {} .still = .ok m ∧
      Arises m (.turn u l (.forceQueue k :: code) length seats) ∧
      u.thread.calls.map (fun c => (c.procedure, c.warp)) = [(1, true), (0, true)] ∧
      0 < u.thread.warp ∧ (∃ c, u.thread.calls.head? = some c ∧ c.warp = true) ∧
      Act.exec (.forceQueue k) u = .ok (.leave (.yield k)) u ∧ u.thread.Exact ∧
      StackOp.Balanced [.save, .push 0 5 [] false, .restore, .pop] ∧
      (StackOp.run [.save, .push 0 5 [] false, .restore, .pop]
        (u.thread.call 1 4 [] true)).endCall? = some (4, u.thread) := by
  have hrun : diving?.map (fun x => x.2.threads.map fun t =>
      (t.warp, t.calls.map fun c => (c.procedure, c.warp))) =
      some [(2, [(1, true), (0, true)])] := by
    decide +kernel
  obtain ⟨⟨m, w⟩, hx, hthreads⟩ := Option.map_eq_some_iff.mp hrun
  obtain ⟨m₀, hload, hx⟩ := Option.bind_eq_some_iff.mp hx
  obtain ⟨w₀, hseek, heq⟩ := Option.map_eq_some_iff.mp hx
  cases heq
  have hload := eq_ok_of_toOption hload
  obtain ⟨hreaches, hforced⟩ := reaches_seek? hseek
  obtain ⟨u, l, k, code, length, seats, rfl⟩ := exists_of_isForced hforced
  have hw : Arises m _ := .head (.greenFlag m) hreaches
  obtain ⟨-, hruns, hyields⟩ := calls_exact (H := Headless)
  obtain ⟨hexact, -, hinnermost⟩ := hruns _ _ _ _ _ _ _ hload hw u.thread List.mem_cons_self
  simp only [threads, List.map_cons, List.cons.injEq, Prod.mk.injEq] at hthreads
  obtain ⟨⟨hwarp, hcalls⟩, -⟩ := hthreads
  have hpos : 0 < u.thread.warp := by omega
  have hbalanced : StackOp.Balanced [.save, .push 0 5 [] false, .restore, .pop] := by decide
  have hyield : Act.exec (.forceQueue k) u = .ok (.leave (.yield k)) u := rfl
  cases hyields _ _ _ _ hyield hpos
  exact ⟨m, u, l, k, code, length, seats, hload, hw, hcalls, hpos, hinnermost.mp hpos, hyield,
    hexact, hbalanced, hexact.returns 1 4 [] true _ hbalanced⟩

end BlockScript
