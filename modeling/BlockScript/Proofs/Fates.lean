import BlockScript.Proofs.Changes
import BlockScript.Proofs.Order

/-!
# What becomes of a seat

While a thread is at work, a seat keeps its position and mostly its thread. The thread in it may be
stopped, by a thread of its own target or together with all others, or an event starts its script
over in it. New seats come at the end only.

* `Thread.Fresh`: a thread as an event starts it;
* `Machine.Fate`: what becomes of one seat;
* `Machine.Fates`: what becomes of all of them, along any number of changes;
* `Machine.startAll`: an event starts scripts one after the other (`Machine.trigger_eq_startAll`);
* `Machine.fates_of_alters`: what a statement does to each seat;
* `Machine.seat_startAll`: how the seat of the thread at work is filled when its script starts over.
-/

namespace BlockScript

/-- The thread is as an event starts it: at its entry, with nothing done yet. -/
def Thread.Fresh (t : Thread) : Prop :=
  t = { Thread.start t.target t.base t.group with ready := t.ready }

/-- Whether the statement stops threads. -/
def Stmt.stops : Stmt → Bool
  | .deleteClone | .stopOthers | .stopAll => true
  | _ => false

namespace Machine

variable {H : Type}

/-! ## 1. One seat -/

/-- What becomes of a seat while a thread of the target `own` is at work. Whether threads may be
    stopped, and which threads are new, is left open. -/
inductive Fate (own : TargetId) (stops : Prop) (new : Thread → Prop) (m m' : Machine H) (i : Nat) :
    Prop
  | kept (h : m'.queue[i]? = m.queue[i]?)
  /-- Its thread is stopped by one of the same target, or with all others; or it was new. -/
  | stopped (h : m'.queue[i]? = some .empty) (hs : stops)
      (why : (∃ base, m.occupant? i = some (own, base)) ∨ m.queue.length ≤ i ∨
        ∀ k < m.queue.length, m'.queue[k]? = some .empty)
  /-- Its script starts over, or the seat is new. -/
  | started {t : Thread} (h : m'.queue[i]? = some (.waiting t)) (hfresh : t.Fresh) (hnew : new t)
      (hscript : m.occupant? i = some (t.target, t.base) ∨ m.queue.length ≤ i)
      (hready : t.ready = true ∨ m.queue[i]? = some .running)

/-- What becomes of all seats. -/
structure Befalls (own : TargetId) (stops : Prop) (new : Thread → Prop) (m m' : Machine H) :
    Prop where
  running : m'.running = m.running
  length : m.queue.length ≤ m'.queue.length
  fate : ∀ i, Fate own stops new m m' i

theorem occupant?_eq_none {m : Machine H} {i : Nat} (h : m.queue[i]? = some .empty) :
    m.occupant? i = none := by
  unfold occupant?
  rw [h]

theorem occupant?_congr {m m' : Machine H} {i : Nat} (hrunning : m'.running = m.running)
    (h : m'.queue[i]? = m.queue[i]?) : m'.occupant? i = m.occupant? i := by
  unfold occupant?
  rw [h, hrunning]

namespace Befalls

variable {own : TargetId} {stops stops' : Prop} {new new' : Thread → Prop} {a b c : Machine H}

theorem of_eq (hrunning : b.running = a.running) (hqueue : b.queue = a.queue) :
    Befalls own stops new a b :=
  ⟨hrunning, by rw [hqueue], fun _ => .kept (by rw [hqueue])⟩

theorem refl (m : Machine H) : Befalls own stops new m m := .of_eq rfl rfl

theorem mono (hstops : stops → stops') (hnew : ∀ t, new t → new' t)
    (h : Befalls own stops new a b) : Befalls own stops' new' a b := by
  refine ⟨h.running, h.length, fun i => ?_⟩
  cases h.fate i with
  | kept h => exact .kept h
  | stopped h hs why => exact .stopped h (hstops hs) why
  | started h hfresh ht hscript hready => exact .started h hfresh (hnew _ ht) hscript hready

/-- An empty seat stays empty. -/
theorem empty (h : Befalls own stops new a b) {i : Nat} (hi : a.queue[i]? = some .empty) :
    b.queue[i]? = some .empty := by
  cases h.fate i with
  | kept hkept => exact hkept.trans hi
  | stopped hempty => exact hempty
  | started _ _ _ hscript =>
    rcases hscript with hscript | hge
    · rw [occupant?_eq_none hi] at hscript
      cases hscript
    · have hlt := lt_of_getElem? hi
      omega

/-- The reason why a thread is stopped stays one. -/
theorem stopped_trans (h : Befalls own stops new a b) {i : Nat}
    (hi : c.queue[i]? = some .empty) (hs : stops)
    (why : (∃ base, b.occupant? i = some (own, base)) ∨ b.queue.length ≤ i ∨
      ∀ k < b.queue.length, c.queue[k]? = some .empty) : Fate own stops new a c i := by
  have hlength := h.length
  rcases why with ⟨base, hown⟩ | hge | hall
  · cases h.fate i with
    | kept hkept =>
      rw [occupant?_congr h.running hkept] at hown
      exact .stopped hi hs (.inl ⟨base, hown⟩)
    | stopped hempty =>
      rw [occupant?_eq_none hempty] at hown
      cases hown
    | started hseat _ _ hscript =>
      rw [occupant?_waiting hseat] at hown
      refine .stopped hi hs ?_
      rcases hscript with hscript | hge
      · exact .inl ⟨base, hscript.trans hown⟩
      · exact .inr (.inl hge)
  · exact .stopped hi hs (.inr (.inl (by omega)))
  · exact .stopped hi hs (.inr (.inr fun k hk => hall k (by omega)))

theorem started_trans (h : Befalls own stops new a b) {i : Nat} {t : Thread}
    (hi : c.queue[i]? = some (.waiting t)) (hfresh : t.Fresh) (hnew : new t)
    (hscript : b.occupant? i = some (t.target, t.base) ∨ b.queue.length ≤ i)
    (hready : t.ready = true ∨ b.queue[i]? = some .running) : Fate own stops new a c i := by
  have hlength := h.length
  cases h.fate i with
  | kept hkept =>
    rw [occupant?_congr h.running hkept] at hscript
    rw [hkept] at hready
    exact .started hi hfresh hnew (hscript.imp_right fun hge => by omega) hready
  | stopped hempty =>
    rcases hscript with hscript | hge
    · rw [occupant?_eq_none hempty] at hscript
      cases hscript
    · have hlt := lt_of_getElem? hempty
      omega
  | started hseat _ _ hscript₁ =>
    have hlt := lt_of_getElem? hseat
    have hsame : b.occupant? i = some (t.target, t.base) :=
      hscript.resolve_right fun hge => by omega
    rw [occupant?_waiting hseat] at hsame
    rw [hsame] at hscript₁
    refine .started hi hfresh hnew hscript₁ (.inl (hready.resolve_right fun hrunning => ?_))
    rw [hseat] at hrunning
    cases hrunning

theorem trans (h : Befalls own stops new a b) (h' : Befalls own stops new b c) :
    Befalls own stops new a c := by
  refine ⟨h'.running.trans h.running, Nat.le_trans h.length h'.length, fun i => ?_⟩
  cases h'.fate i with
  | stopped hempty hs why => exact h.stopped_trans hempty hs why
  | started hseat hfresh hnew hscript hready =>
    exact h.started_trans hseat hfresh hnew hscript hready
  | kept hkept =>
    cases h.fate i with
    | kept hkept₁ => exact .kept (hkept.trans hkept₁)
    | stopped hempty hs why =>
      refine .stopped (hkept.trans hempty) hs ?_
      rcases why with hown | hge | hall
      · exact .inl hown
      · exact .inr (.inl hge)
      · exact .inr (.inr fun k hk => h'.empty (hall k hk))
    | started hseat hfresh hnew hscript hready =>
      exact .started (hkept.trans hseat) hfresh hnew hscript hready

end Befalls

/-! ## 2. Along changes -/

/-- What becomes of all seats: threads that are new belong to events since then. -/
structure Fates (own : TargetId) (stops : Prop) (m m' : Machine H) : Prop where
  lastGroup : m.lastGroup ≤ m'.lastGroup
  seats : Befalls own stops (fun t => m.lastGroup < t.group ∧ t.group ≤ m'.lastGroup) m m'

namespace Fates

variable {own : TargetId} {stops stops' : Prop} {a b c : Machine H}

theorem of_eq (hgroup : b.lastGroup = a.lastGroup) (hrunning : b.running = a.running)
    (hqueue : b.queue = a.queue) : Fates own stops a b :=
  ⟨Nat.le_of_eq hgroup.symm, .of_eq hrunning hqueue⟩

theorem refl (m : Machine H) : Fates own stops m m := .of_eq rfl rfl rfl

theorem mono (hstops : stops → stops') (h : Fates own stops a b) : Fates own stops' a b :=
  ⟨h.lastGroup, h.seats.mono hstops fun _ ht => ht⟩

theorem trans (h : Fates own stops a b) (h' : Fates own stops b c) : Fates own stops a c := by
  have hle := h.lastGroup
  have hle' := h'.lastGroup
  refine ⟨Nat.le_trans hle hle', ?_⟩
  refine (h.seats.mono id fun t ht => ?_).trans (h'.seats.mono id fun t ht => ?_)
  · exact ⟨ht.1, Nat.le_trans ht.2 hle'⟩
  · exact ⟨Nat.lt_of_le_of_lt hle ht.1, ht.2⟩

end Fates

/-! ## 3. Events -/

/-- Starts scripts, one after the other. -/
def startAll (m : Machine H) (group : GroupId) (scripts : List (TargetId × Label)) : Machine H :=
  scripts.foldl (fun m script => m.startThread script.1 script.2 group) m

/-- The scripts of a target that an event starts. -/
def scriptsOf (m : Machine H) (e : Event) (id : TargetId) : List (TargetId × Label) :=
  match m.target? id with
  | none => []
  | some t => (t.program.startedBy e).map fun base => (id, base)

/-- The scripts that an event starts, in order. -/
def scriptsFor (m : Machine H) (e : Event) : List (TargetId × Label) :=
  m.audience.flatMap (m.scriptsOf e)

theorem startAll_append (m : Machine H) (group : GroupId) (a b : List (TargetId × Label)) :
    m.startAll group (a ++ b) = (m.startAll group a).startAll group b :=
  List.foldl_append

theorem startListeners_eq_startAll (m : Machine H) (id : TargetId) (e : Event) (group : GroupId) :
    m.startListeners id e group = m.startAll group (m.scriptsOf e id) := by
  unfold startListeners scriptsOf
  cases m.target? id with
  | none => rfl
  | some t =>
    dsimp only [startAll]
    rw [List.foldl_map]

theorem scriptsOf_congr {m m' : Machine H} (h : m'.targets = m.targets) (e : Event) :
    m'.scriptsOf e = m.scriptsOf e := by
  funext id
  unfold scriptsOf target?
  rw [h]

/-- **An event starts the scripts that wait for it**, one after the other. -/
theorem trigger_eq_startAll (m : Machine H) (e : Event) :
    (m.trigger e).2 = m.newGroup.2.startAll (m.lastGroup + 1) (m.scriptsFor e) := by
  have hfold (ids : List TargetId) (group : GroupId) (m : Machine H) :
      ids.foldl (fun m id => m.startListeners id e group) m =
        m.startAll group (ids.flatMap (m.scriptsOf e)) := by
    induction ids generalizing m with
    | nil => rfl
    | cons id rest ih =>
      have htargets : (m.startListeners id e group).targets = m.targets := by
        rw [startListeners_eq]
      rw [List.foldl_cons, ih, List.flatMap_cons, startAll_append, scriptsOf_congr htargets,
        startListeners_eq_startAll]
  exact hfold _ _ _

theorem triggerFor_eq_startAll (m : Machine H) (id : TargetId) (e : Event) :
    (m.triggerFor id e).2 = m.newGroup.2.startAll (m.lastGroup + 1) (m.scriptsOf e id) :=
  startListeners_eq_startAll _ _ _ _

section Start

variable {own : TargetId} {stops : Prop}

theorem befalls_startThread (m : Machine H) (target : TargetId) (base : Label) (group : GroupId) :
    Befalls own stops (·.group = group) m (m.startThread target base group) := by
  unfold startThread
  dsimp only
  split
  · rename_i k hk
    have hscript : m.occupant? k = some (target, base) := by simpa using List.find?_some hk
    have hlt : k < m.queue.length := List.mem_range.mp (List.mem_of_find?_eq_some hk)
    refine ⟨rfl, by simp, fun i => ?_⟩
    by_cases hki : k = i
    · subst hki
      refine .started (List.getElem?_set_self hlt) rfl rfl (.inl hscript) ?_
      cases hrunning : m.isRunning k with
      | true => exact .inr (isRunning_iff.mp hrunning)
      | false => exact .inl rfl
    · exact .kept (List.getElem?_set_ne hki)
  · refine ⟨rfl, by simp, fun i => ?_⟩
    rcases Nat.lt_trichotomy i m.queue.length with hlt | heq | hgt
    · exact .kept (List.getElem?_append_left hlt)
    · subst heq
      exact .started List.getElem?_concat_length rfl rfl (.inr (Nat.le_refl _)) (.inl rfl)
    · refine .kept ?_
      have hlength : (m.queue ++ [Seat.waiting (.start target base group)]).length ≤ i := by
        simp
        omega
      exact (List.getElem?_eq_none hlength).trans
        (List.getElem?_eq_none (Nat.le_of_lt hgt)).symm

theorem befalls_startAll (m : Machine H) (group : GroupId) (scripts : List (TargetId × Label)) :
    Befalls own stops (·.group = group) m (m.startAll group scripts) := by
  induction scripts generalizing m with
  | nil => exact .refl m
  | cons script rest ih => exact (befalls_startThread m script.1 script.2 group).trans (ih _)

theorem lastGroup_startAll (m : Machine H) (group : GroupId) (scripts : List (TargetId × Label)) :
    (m.startAll group scripts).lastGroup = m.lastGroup := by
  induction scripts generalizing m with
  | nil => rfl
  | cons script rest ih =>
    exact (ih _).trans (lastGroup_startThread m script.1 script.2 group)

/-- Scripts start as a group of their own. -/
theorem fates_startAll (m : Machine H) (scripts : List (TargetId × Label)) :
    Fates own stops m (m.newGroup.2.startAll (m.lastGroup + 1) scripts) := by
  have hgroup : (m.newGroup.2.startAll (m.lastGroup + 1) scripts).lastGroup = m.lastGroup + 1 :=
    lastGroup_startAll _ _ _
  have hbare : Befalls own stops (·.group = m.lastGroup + 1) m m.newGroup.2 := .of_eq rfl rfl
  refine ⟨Nat.le_trans (Nat.le_succ _) (Nat.le_of_eq hgroup.symm),
    (hbare.trans (befalls_startAll _ _ scripts)).mono id fun t ht => ?_⟩
  rw [hgroup, ht]
  exact ⟨Nat.lt_succ_self _, Nat.le_refl _⟩

theorem fates_trigger (m : Machine H) (e : Event) : Fates own stops m (m.trigger e).2 := by
  rw [trigger_eq_startAll]
  exact fates_startAll m _

theorem fates_createClone (m : Machine H) (of : TargetId) :
    Fates own stops m (m.createClone of).2 := by
  unfold createClone
  split
  · exact .refl m
  dsimp only
  split
  · exact .refl m
  · refine Fates.trans ?_ ((triggerFor_eq_startAll _ _ _).symm ▸ fates_startAll _ _)
    exact .of_eq rfl rfl rfl

end Start

/-! ## 4. Threads that are stopped -/

section Stop

variable {own : TargetId}

theorem fates_stopTarget (m : Machine H) (keep : Option Nat) :
    Fates own True m (m.stopTarget own keep) := by
  refine ⟨Nat.le_refl _, rfl, by simp [stopTarget], fun i => ?_⟩
  have hseat : (m.stopTarget own keep).queue[i]? = m.queue[i]?.map fun s =>
      if keep = some i then s
      else if (m.occupant? i).map (·.1) = some own then .empty else s := by
    unfold stopTarget
    exact List.getElem?_mapIdx ..
  cases hi : m.queue[i]? with
  | none =>
    rw [hi] at hseat
    exact .kept (hseat.trans hi.symm)
  | some s =>
    rw [hi, Option.map_some] at hseat
    split at hseat
    · exact .kept (hseat.trans hi.symm)
    · split at hseat
      · rename_i hown
        obtain ⟨⟨target, base⟩, hscript, rfl⟩ := Option.map_eq_some_iff.mp hown
        exact .stopped hseat trivial (.inl ⟨base, hscript⟩)
      · exact .kept (hseat.trans hi.symm)

theorem fates_deleteClone (m : Machine H) : Fates own True m (m.deleteClone own).2 := by
  unfold deleteClone
  split
  · exact .refl m
  · split
    · exact .refl m
    · refine (fates_stopTarget m none).trans ?_
      exact .of_eq rfl rfl rfl

/-- While a thread is at work, the seats stay where they are when everything stops. -/
theorem queue_stopAll [Host H] {m : Machine H} (h : m.running.isSome = true) :
    m.stopAll.queue = m.queue.map fun _ => .empty := by
  unfold stopAll
  dsimp only
  rw [if_pos h]

theorem fates_stopAll [Host H] {m : Machine H} (h : m.running.isSome = true) :
    Fates own True m m.stopAll := by
  have hqueue := queue_stopAll h
  have hempty (k : Nat) (hk : k < m.queue.length) : m.stopAll.queue[k]? = some .empty := by
    rw [hqueue, List.getElem?_map, List.getElem?_eq_getElem hk, Option.map_some]
  refine ⟨Nat.le_refl _, rfl, ?_, fun i => ?_⟩
  · rw [hqueue, List.length_map]
  · rcases Nat.lt_or_ge i m.queue.length with hlt | hge
    · exact .stopped (hempty i hlt) trivial (.inr (.inr hempty))
    · refine .kept ?_
      rw [hqueue, List.getElem?_eq_none hge, List.getElem?_eq_none]
      rw [List.length_map]
      exact hge

end Stop

/-! ## 5. Whatever a thread does -/

section Change

variable [Host H] {own : TargetId} {seat : Nat} {s : Stmt} {m m' : Machine H}

theorem fates_of_change (h : Change own seat s m m') (hrunning : m.running.isSome = true) :
    Fates own (s.stops = true) m m' := by
  cases h with
  | aside h => exact .of_eq h.lastGroup h.running h.queue
  | modify => exact .of_eq rfl rfl rfl
  | trigger _ _ e => exact fates_trigger m e
  | createClone _ of => exact fates_createClone m of
  | deleteClone => exact (fates_deleteClone m).mono fun _ => rfl
  | stopOthers => exact (fates_stopTarget m _).mono fun _ => rfl
  | stopAll => exact (fates_stopAll hrunning).mono fun _ => rfl

/-- **What a statement does to each seat.** -/
theorem fates_of_alters (h : Alters own seat s m m') (hrunning : m.running.isSome = true) :
    Fates own (s.stops = true) m m' := by
  induction h with
  | refl => exact .refl m
  | tail _ hc ih =>
    refine ih.trans (fates_of_change hc ?_)
    rw [ih.seats.running]
    exact hrunning

end Change

/-! ## 6. The script of the thread at work starts over -/

section Over

variable {m : Machine H} {i : Nat} {target : TargetId} {base : Label}

/-- Who has the first seat of a script. -/
theorem startThread_of_occupant (hd : m.Distinct) (hi : m.occupant? i = some (target, base))
    (group : GroupId) :
    (m.startThread target base group).queue[i]? =
      some (.waiting { Thread.start target base group with ready := !m.isRunning i }) := by
  have hlt := lt_of_occupant? hi
  unfold startThread
  dsimp only
  split
  · rename_i k hk
    have hscript : m.occupant? k = some (target, base) := by simpa using List.find?_some hk
    cases hd k i _ hscript hi
    exact List.getElem?_set_self hlt
  · rename_i hnone
    exact absurd (beq_iff_eq.mpr hi) (List.find?_eq_none.mp hnone i (List.mem_range.mpr hlt))

/-- The seats of other scripts are left alone. -/
theorem startThread_of_ne {other : TargetId × Label} (hi : m.occupant? i = some (target, base))
    (hne : other ≠ (target, base)) (group : GroupId) :
    (m.startThread other.1 other.2 group).queue[i]? = m.queue[i]? := by
  have hlt := lt_of_occupant? hi
  unfold startThread
  dsimp only
  split
  · rename_i k hk
    have hscript : m.occupant? k = some other := by simpa using List.find?_some hk
    have hki : k ≠ i := by
      rintro rfl
      rw [hi] at hscript
      exact hne (Option.some.inj hscript).symm
    exact List.getElem?_set_ne hki
  · exact List.getElem?_append_left hlt

/-- A thread that waits is replaced if its script is among those that start. -/
theorem seat_startAll_waiting {t : Thread} (hd : m.Distinct) (hi : m.queue[i]? = some (.waiting t))
    (group : GroupId) (scripts : List (TargetId × Label)) :
    (m.startAll group scripts).queue[i]? =
      some (.waiting (if (t.target, t.base) ∈ scripts then .start t.target t.base group else t)) := by
  induction scripts generalizing m t with
  | nil => exact hi
  | cons script rest ih =>
    have hscript := occupant?_waiting hi
    have hd' := (reseats_startThread m script.1 script.2 group).distinct hd
    by_cases heq : script = (t.target, t.base)
    · subst heq
      have hidle : m.isRunning i = false := by
        unfold isRunning
        rw [hi]
      have hseat := startThread_of_occupant hd hscript group
      rw [hidle] at hseat
      refine (ih hd' hseat).trans ?_
      rw [if_pos List.mem_cons_self]
      exact congrArg (fun t => some (Seat.waiting t)) (ite_self _)
    · have hseat := startThread_of_ne hscript heq group
      refine (ih hd' (hseat.trans hi)).trans ?_
      simp only [List.mem_cons, or_iff_right (Ne.symm heq)]

/-- **How the seat of the thread at work is filled** when scripts start: a thread of its own script
    waits for the next pass, unless the script starts twice. -/
theorem seat_startAll {r : Running} (hd : m.Distinct) (hr : m.running = some r)
    (hi : m.queue[r.seat]? = some .running) (group : GroupId) (scripts : List (TargetId × Label)) :
    (m.startAll group scripts).queue[r.seat]? =
      if (r.target, r.base) ∈ scripts then
        some (.waiting { Thread.start r.target r.base group with
          ready := decide (1 < scripts.count (r.target, r.base)) })
      else some .running := by
  induction scripts generalizing m with
  | nil => exact hi
  | cons script rest ih =>
    have hscript := occupant?_running hr hi
    have hreseats := reseats_startThread m script.1 script.2 group
    have hd' := hreseats.distinct hd
    by_cases heq : script = (r.target, r.base)
    · subst heq
      have hbusy : m.isRunning r.seat = true := isRunning_iff.mpr hi
      have hseat := startThread_of_occupant hd hscript group
      rw [hbusy] at hseat
      refine (seat_startAll_waiting hd' hseat group rest).trans ?_
      rw [if_pos List.mem_cons_self, List.count_cons_self]
      by_cases hmem : (r.target, r.base) ∈ rest
      · have hcount := List.count_pos_iff.mpr hmem
        have htwice : decide (1 < rest.count (r.target, r.base) + 1) = true :=
          decide_eq_true (by omega)
        rw [htwice]
        exact congrArg (fun t => some (Seat.waiting t)) (if_pos hmem)
      · rw [List.count_eq_zero.mpr hmem]
        exact congrArg (fun t => some (Seat.waiting t)) (if_neg hmem)
    · have hseat := startThread_of_ne hscript heq group
      refine (ih hd' (hreseats.running.trans hr) (hseat.trans hi)).trans ?_
      simp only [List.mem_cons, or_iff_right (Ne.symm heq), List.count_cons_of_ne heq]

end Over

end Machine

end BlockScript
