import BlockScript.Proofs.Layouts
import BlockScript.Proofs.Spots

/-!
# Calls and returns

A thread is always in the script that its calls say it is in, and a procedure that ends hands the
thread back as it was when the procedure was called, whatever happened in between.

* `Call.Same`, `Thread.Inside`: a call at a later time, and a thread that is still inside of it;
* `Spot.Step.inside`: a step stays inside of a call, or is its return;
* `Compile.Belongs`: a label at which a thread inside of some calls can be;
* `Discipline.belonging`: threads are only ever at such labels;
* `World.faithful_returns`: both together, in every run of a compiled project.
-/

namespace BlockScript

/-! ## 1. Calls at a later time -/

/-- The same call at a later time. Its procedure may have saved other copies of its registers, and
    more conversions of its arguments may be known. -/
structure Call.Same (c c' : Call) : Prop where
  procedure : c'.procedure = c.procedure
  resume : c'.resume = c.resume
  args : c'.args.map (·.raw) = c.args.map (·.raw)
  warp : c'.warp = c.warp
  caller : c'.caller = c.caller

namespace Call

theorem Same.refl (c : Call) : Same c c := ⟨rfl, rfl, rfl, rfl, rfl⟩

theorem Same.trans {a b c : Call} (h : Same a b) (h' : Same b c) : Same a c :=
  ⟨h'.procedure.trans h.procedure, h'.resume.trans h.resume, h'.args.trans h.args,
    h'.warp.trans h.warp, h'.caller.trans h.caller⟩

theorem Kin.same {c c' : Call} (h : Kin c c') : Same c c' :=
  ⟨h.procedure, h.resume, h.args, h.warp, h.caller⟩

end Call

namespace Thread

/-- At most the innermost call has changed, and it is the same still. -/
structure Tops (t t' : Thread) : Prop where
  calls : t.calls = [] ∧ t'.calls = [] ∨
    ∃ c c' rest, t.calls = c :: rest ∧ t'.calls = c' :: rest ∧ Call.Same c c'
  /-- Inside of a procedure only the procedure's own copies change. -/
  saved : t.calls ≠ [] → t'.saved = t.saved
  warp : t'.warp = t.warp

theorem Tops.refl (t : Thread) : Tops t t := by
  refine ⟨?_, fun _ => rfl, rfl⟩
  cases h : t.calls with
  | nil => exact .inl ⟨rfl, rfl⟩
  | cons c rest => exact .inr ⟨c, c, rest, rfl, rfl, .refl c⟩

theorem Kin.tops {t t' : Thread} (h : Kin t t') : Tops t t' := by
  refine ⟨?_, fun _ => h.saved, h.warp⟩
  have hcalls := h.calls
  have houter := h.outer
  cases ht : t.calls with
  | nil =>
    rw [ht] at hcalls
    exact .inl ⟨rfl, List.forall₂_nil_left_iff.mp hcalls⟩
  | cons c rest =>
    rw [ht] at hcalls
    obtain ⟨c', rest', hc, -, ht'⟩ := List.forall₂_cons_left_iff.mp hcalls
    rw [ht, ht', List.tail_cons, List.tail_cons] at houter
    exact .inr ⟨c, c', rest, rfl, houter ▸ ht', hc.same⟩

theorem tops_withSaveStack (t : Thread) (saved : List Registers) :
    Tops t (t.withSaveStack saved) := by
  unfold withSaveStack
  cases h : t.calls with
  | nil => exact ⟨.inl ⟨h, rfl⟩, fun hne => absurd h hne, rfl⟩
  | cons c rest => exact ⟨.inr ⟨c, _, rest, h, rfl, ⟨rfl, rfl, rfl, rfl, rfl⟩⟩, fun _ => rfl, rfl⟩

/-! A thread that counts the calls which keep it from yielding still does so later. -/

section Counts

variable {t t' : Thread} (h : t.warp = t.calls.countP (·.warp))

include h

theorem Tops.warp_eq (ht : Tops t t') : t'.warp = t'.calls.countP (·.warp) := by
  rcases ht.calls with ⟨hc, hc'⟩ | ⟨c, c', rest, hc, hc', hsame⟩
  · rw [ht.warp, h, hc, hc']
  · rw [ht.warp, h, hc, hc', List.countP_cons, List.countP_cons, hsame.warp]

theorem warp_call (p : ProcId) (resume : Label) (args : List Value) (warp : Bool) :
    (t.call p resume args warp).warp = (t.call p resume args warp).calls.countP (·.warp) := by
  show (if warp then t.warp + 1 else t.warp) = _
  rw [h]
  cases warp <;> simp [Thread.call]

theorem warp_endCall? {l : Label} (he : t.endCall? = some (l, t')) :
    t'.warp = t'.calls.countP (·.warp) := by
  obtain ⟨c, rest, hcalls, rfl, rfl⟩ := exists_of_endCall? he
  show (if c.warp then t.warp - 1 else t.warp) = _
  rw [h, hcalls, List.countP_cons]
  cases c.warp <;> simp

end Counts

end Thread

/-- **A thread that goes on is in the same calls as before.** -/
theorem Act.Onward.tops {s : Stmt} {t t' : Thread} {code : List Stmt} (h : Act.Onward s t code t') :
    Thread.Tops t t' := by
  cases h with
  | save => exact t.tops_withSaveStack _
  | restore h =>
    obtain ⟨_, copies, -, rfl⟩ := Thread.exists_of_restore? h
    have htops := t.tops_withSaveStack copies
    exact ⟨htops.calls, htops.saved, htops.warp⟩
  | endCall | forever => exact .refl t
  | done _ _ _ h | yes h | no h | «repeat» _ h | «while» h => exact h.tops

theorem Act.Onward.same {s : Stmt} {t t' : Thread} {code : List Stmt} (h : Act.Onward s t code t') :
    Thread.Same t t' := by
  cases h with
  | save => exact t.same_withSaveStack _
  | restore h => exact Thread.same_restore? h
  | endCall | forever => exact .refl t
  | done _ _ _ h | yes h | no h | «repeat» _ h | «while» h => exact h.same

theorem Act.Departs.same {p : Program} {s : Stmt} {t t' : Thread} {l : Label}
    (h : Act.Departs p s t l t') : Thread.Same t t' := by
  cases h with
  | queue | forceQueue => exact .refl t
  | endCall h => exact Thread.same_endCall? h
  | call _ h => exact h.same.trans ⟨rfl, rfl, rfl⟩

/-- The thread is inside of a call, perhaps of others in it. Below are the calls that there were
    when it was made, with the copies that were saved outside of any procedure. In the call itself
    so many calls keep the thread from yielding. -/
def Thread.Inside (c : Call) (below : List Call) (saved : List Registers) (warp : Nat)
    (t : Thread) : Prop :=
  ∃ above c', t.calls = above ++ c' :: below ∧ Call.Same c c' ∧ t.saved = saved ∧
    t.warp = warp + above.countP (·.warp)

namespace Thread.Inside

variable {c : Call} {below : List Call} {saved : List Registers} {warp : Nat} {t t' : Thread}

/-- Right after the call. -/
theorem entered (t : Thread) (c : Call) (h : t.calls = c :: below) :
    t.Inside c below t.saved t.warp :=
  ⟨[], c, h, .refl c, rfl, rfl⟩

theorem of_eq (h : t.Inside c below saved warp) (hcalls : t'.calls = t.calls)
    (hsaved : t'.saved = t.saved) (hwarp : t'.warp = t.warp) : t'.Inside c below saved warp := by
  obtain ⟨above, c', ht, hc, hs, hw⟩ := h
  exact ⟨above, c', hcalls.trans ht, hc, hsaved.trans hs, hwarp.trans hw⟩

theorem length_lt (h : t.Inside c below saved warp) : below.length < t.calls.length := by
  obtain ⟨above, c', ht, -⟩ := h
  rw [ht, List.length_append, List.length_cons]
  omega

theorem tops (h : t.Inside c below saved warp) (ht : Tops t t') :
    t'.Inside c below saved warp := by
  obtain ⟨above, c₁, hcalls, hc, hs, hw⟩ := h
  have hne : t.calls ≠ [] := by
    rw [hcalls]
    exact List.append_ne_nil_of_right_ne_nil _ (List.cons_ne_nil _ _)
  rcases ht.calls with ⟨hnil, -⟩ | ⟨a, a', rest, ha, ha', hsame⟩
  · exact absurd hnil hne
  rw [hcalls] at ha
  cases above with
  | nil =>
    cases ha
    exact ⟨[], a', ha', hc.trans hsame, (ht.saved hne).trans hs, ht.warp.trans hw⟩
  | cons b above =>
    cases ha
    refine ⟨a' :: above, c₁, ha', hc, (ht.saved hne).trans hs, ?_⟩
    rw [ht.warp, hw, List.countP_cons, List.countP_cons, hsame.warp]

/-- Another call is inside of it as well. -/
theorem call (h : t.Inside c below saved warp) (id : ProcId) (resume : Label)
    (values : List Value) (keep : Bool) :
    (t.call id resume values keep).Inside c below saved warp := by
  obtain ⟨above, c', hcalls, hc, hs, hw⟩ := h
  refine ⟨⟨id, resume, values.map fun v => { raw := v }, keep, t.registers, []⟩ :: above, c', ?_,
    hc, hs, ?_⟩
  · exact congrArg _ hcalls
  · unfold Thread.call
    rw [List.countP_cons]
    cases keep with
    | true =>
      simp only [if_true]
      omega
    | false =>
      simp only [Bool.false_eq_true, if_false]
      omega

/-- The end of a procedure ends another call, or this one. -/
theorem endCall (h : t.Inside c below saved warp) {l : Label} (he : t.endCall? = some (l, t')) :
    t'.Inside c below saved warp ∨
      t.calls.length = below.length + 1 ∧ l = c.resume ∧ t'.calls = below ∧
        t'.registers = c.caller ∧ t'.saved = saved ∧
        t'.warp = if c.warp then warp - 1 else warp := by
  obtain ⟨above, c', hcalls, hc, hs, hw⟩ := h
  unfold Thread.endCall? at he
  rw [hcalls] at he
  cases above with
  | nil =>
    cases he
    refine .inr ⟨?_, hc.resume, rfl, hc.caller, hs, ?_⟩
    · rw [hcalls]
      rfl
    · rw [← hc.warp]
      rw [List.countP_nil, Nat.add_zero] at hw
      rw [← hw]
  | cons a above =>
    cases he
    refine .inl ⟨above, c', rfl, hc, hs, ?_⟩
    rw [List.countP_cons] at hw
    dsimp only
    cases ha : a.warp with
    | true =>
      rw [ha, if_pos rfl] at hw
      rw [if_pos rfl]
      omega
    | false =>
      rw [ha, if_neg Bool.false_ne_true] at hw
      rw [if_neg Bool.false_ne_true]
      exact hw

end Thread.Inside

/-- What a thread has from a call that has ended: it is where the caller goes on, as the caller
    was. -/
structure Thread.Returned (c : Call) (below : List Call) (saved : List Registers) (warp : Nat)
    (t : Thread) : Prop where
  calls : t.calls = below
  registers : t.registers = c.caller
  saved : t.saved = saved
  warp : t.warp = if c.warp then warp - 1 else warp

section Steps

variable {R : Rules} {p : Program} {c : Call} {below : List Call} {saved : List Registers}
  {warp : Nat} {x y : Spot}

/-- A statement that leaves for a label leaves the thread inside of the call, or is its end. -/
theorem Act.Departs.inside {s : Stmt} {t t' : Thread} {l : Label} (h : Act.Departs p s t l t')
    (ht : t.Inside c below saved warp) :
    t'.Inside c below saved warp ∨
      (s = .endCall ∧ t.calls.length = below.length + 1) ∧ l = c.resume ∧
        t'.Returned c below saved warp := by
  cases h with
  | queue | forceQueue => exact .inl ht
  | call _ hk => exact .inl ((ht.tops hk.tops).call _ _ _ _)
  | endCall he =>
    rcases ht.endCall he with hinside | ⟨hlen, hl, hcalls, hregisters, hsaved, hwarp⟩
    · exact .inl hinside
    · exact .inr ⟨⟨rfl, hlen⟩, hl, ⟨hcalls, hregisters, hsaved, hwarp⟩⟩

/-- **A step leaves the thread inside of a call, or is the return from it.** -/
theorem Spot.Step.inside (h : Spot.Step R p x y) (hx : x.thread.Inside c below saved warp) :
    y.thread.Inside c below saved warp ∨
      y.thread.Returned c below saved warp ∧
        ∃ code, y = .work y.thread c.resume code ∧ R.finds p c.resume code := by
  cases h with
  | stay t ready => exact .inl (hx.of_eq rfl rfl rfl)
  | enter => exact .inl hx
  | onward h => exact .inl (hx.tops h.tops)
  | jump h hc =>
    rcases h.inside hx with hinside | ⟨-, rfl, hreturned⟩
    · exact .inl hinside
    · exact .inr ⟨hreturned, _, rfl, hc⟩
  | yield h hs =>
    rcases h.inside hx with hinside | ⟨⟨hend, -⟩, -⟩
    · exact .inl (hinside.of_eq rfl rfl rfl)
    · exact absurd hend hs

/-- While a thread is inside of more procedures than there were before a call, it is inside of that
    call. -/
theorem Sighting.Within.inside {H : Type} [Host H] {D : Discipline R} {a b : Sighting H}
    (h : Sighting.Within R (below.length + 1) a b) (ha : a.world.Sound D)
    (hinside : a.spot.thread.Inside c below saved warp) :
    b.world.Sound D ∧ b.program = a.program ∧ b.spot.thread.Inside c below saved warp := by
  induction h with
  | refl => exact ⟨ha, rfl, hinside⟩
  | @tail b d _ hstep ih =>
    obtain ⟨hb, hprogram, hbinside⟩ := ih
    obtain ⟨hstep, hdepth⟩ := hstep
    obtain ⟨hd, hprogram', hspot⟩ := hstep.spot hb
    refine ⟨hd, hprogram'.trans hprogram, ?_⟩
    rcases hspot.inside hbinside with hdinside | ⟨hreturned, -⟩
    · exact hdinside
    · unfold Spot.depth at hdepth
      rw [hreturned.calls] at hdepth
      exact absurd hdepth (Nat.not_succ_le_self _)

/-- A call leaves the thread inside of it, with what it needs to go on as it was. -/
theorem Spot.Step.called {t : Thread} {l : Label} {id : ProcId} {args : List Expr}
    {resume : Label} {rest : List Stmt}
    (h : Spot.Step R p (.work t l (.call id args resume :: rest)) y) :
    ∃ c, y.thread.calls = c :: y.thread.calls.tail ∧ c.resume = resume ∧
      c.caller = t.registers ∧ List.Forall₂ Call.Kin t.calls y.thread.calls.tail ∧
      y.thread.saved = t.saved ∧ (if c.warp then y.thread.warp - 1 else y.thread.warp) = t.warp := by
  have hdeparts {k : Label} {t' : Thread} (h : Act.Departs p (.call id args resume) t k t') :
      ∃ c, t'.calls = c :: t'.calls.tail ∧ c.resume = resume ∧ c.caller = t.registers ∧
        List.Forall₂ Call.Kin t.calls t'.calls.tail ∧ t'.saved = t.saved ∧
        (if c.warp then t'.warp - 1 else t'.warp) = t.warp := by
    cases h with
    | @call _ _ _ q _ t₁ values hq hk hr hlen =>
      refine ⟨_, rfl, rfl, hr, hk.calls, hk.saved, ?_⟩
      rw [← hk.warp]
      unfold Thread.call
      cases q.warp || decide (0 < t₁.warp) <;> rfl
  cases h with
  | onward h =>
    cases h with
    | done _ hstack => cases hstack
  | jump h => exact hdeparts h
  | yield h =>
    obtain ⟨c, hc⟩ := hdeparts h
    exact ⟨c, hc⟩

end Steps

/-! ## 2. The script that a thread is in -/

namespace Compile

open Script (labels nodes)

/-- The label is one at which a thread inside of these calls can be: it stands in the script of the
    innermost procedure, or in the script of the event that starts at the base. Each call goes on at
    such a label, and has one argument for each parameter of its procedure. -/
def Belongs (ss : List Labelled) (procedures : List Procedure) (base : Label) :
    List Call → Label → Prop
  | [], l => ∃ s ∈ ss, s.entry = base ∧ (∃ e, s.trigger = .event e) ∧ l ∈ labels s.body
  | c :: rest, l =>
    (∃ s ∈ ss, s.trigger = .procedure c.procedure ∧ l ∈ labels s.body) ∧
      (∃ q, procedures[c.procedure]? = some q ∧ c.args.length = q.params.length) ∧
      Belongs ss procedures base rest c.resume

variable {ss : List Labelled} {procedures : List Procedure} {base l : Label} {calls : List Call}

theorem Belongs.script (h : Belongs ss procedures base calls l) : ∃ s ∈ ss, l ∈ labels s.body := by
  cases calls with
  | nil =>
    obtain ⟨s, hs, -, -, hl⟩ := h
    exact ⟨s, hs, hl⟩
  | cons c rest =>
    obtain ⟨⟨s, hs, -, hl⟩, -⟩ := h
    exact ⟨s, hs, hl⟩

/-- A thread can be at all labels of a script, or at none. -/
theorem Belongs.move {data : TargetData} {count : Nat} (hss : Scripts data ss count)
    (h : Belongs ss procedures base calls l) {s : Labelled} (hs : s ∈ ss) (hl : l ∈ labels s.body)
    {k : Label} (hk : k ∈ labels s.body) : Belongs ss procedures base calls k := by
  cases calls with
  | nil =>
    obtain ⟨s', hs', hentry, htrigger, hl'⟩ := h
    rw [script_unique hss hs hs' hl hl'] at hentry htrigger
    exact ⟨s, hs, hentry, htrigger, hk⟩
  | cons c rest =>
    obtain ⟨⟨s', hs', htrigger, hl'⟩, hrest⟩ := h
    rw [script_unique hss hs hs' hl hl'] at htrigger
    exact ⟨⟨s, hs, htrigger, hk⟩, hrest⟩

/-- Only the procedures, the arguments and the places to go on matter. -/
theorem Belongs.same {calls' : List Call} (h : Belongs ss procedures base calls l)
    (hcalls : List.Forall₂ Call.Same calls calls') : Belongs ss procedures base calls' l := by
  induction hcalls generalizing l with
  | nil => exact h
  | @cons c c' rest rest' hc hrest ih =>
    obtain ⟨hscript, hargs, hback⟩ := h
    refine ⟨?_, ?_, ?_⟩
    · rw [hc.procedure]
      exact hscript
    · have hlen := congrArg List.length hc.args
      rw [List.length_map, List.length_map] at hlen
      rw [hc.procedure, hlen]
      exact hargs
    · rw [hc.resume]
      exact ih hback

theorem Belongs.tops {t t' : Thread} (h : Belongs ss procedures base t.calls l)
    (ht : Thread.Tops t t') : Belongs ss procedures base t'.calls l := by
  rcases ht.calls with ⟨hnil, hnil'⟩ | ⟨c, c', rest, hc, hc', hsame⟩
  · rw [hnil']
    rw [hnil] at h
    exact h
  · rw [hc] at h
    rw [hc']
    refine h.same (.cons hsame ?_)
    exact List.forall₂_same.mpr fun a _ => .refl a

/-- Inside of no call the script defines no procedure. -/
theorem Belongs.own {data : TargetData} {count : Nat} (hss : Scripts data ss count)
    (h : Belongs ss procedures base calls l) {s : Labelled} (hs : s ∈ ss) (hl : l ∈ labels s.body)
    (hown : (s.trigger.own procedures).isSome = true) : calls ≠ [] := by
  rintro rfl
  obtain ⟨s', hs', -, ⟨e, htrigger⟩, hl'⟩ := h
  rw [script_unique hss hs hs' hl hl'] at htrigger
  rw [htrigger] at hown
  cases hown

/-- At the entry of a procedure, after a call. -/
theorem Belongs.call {data : TargetData} {p : Program} (hp : Assembled data ss p)
    {c : Call} {q : Procedure} (hq : p.procedure? c.procedure = some q)
    (hargs : c.args.length = q.params.length) (h : Belongs ss p.procedures base calls c.resume) :
    Belongs ss p.procedures base (c :: calls) q.entry := by
  refine ⟨?_, ⟨q, hq, hargs⟩, h⟩
  rw [Program.procedure?, hp.procedures] at hq
  obtain ⟨s, hs, htrigger, hentry⟩ := exists_script hp.scripts hq
  rw [← hentry]
  exact ⟨s, hs, htrigger, entry_mem_labels (hp.scripts.whole s hs)⟩

/-- The statements name what may be named in the script of a label. -/
def Fitting (ss : List Labelled) (procedures : List Procedure) (l : Label) (code : List Stmt) :
    Prop :=
  ∃ s ∈ ss, l ∈ labels s.body ∧
    ∀ n ∈ nodes code, n.Fits procedures (s.trigger.own procedures) (· ∈ labels s.body)

/-- **A thread that goes on stays in its script.** -/
theorem Belongs.onward {t t' : Thread} {x : Stmt} {code rest : List Stmt}
    (h : Belongs ss procedures base t.calls l) (hk : Fitting ss procedures l (x :: rest))
    (ho : Act.Onward x t code t') :
    Belongs ss procedures base t'.calls l ∧ Fitting ss procedures l (code ++ rest) := by
  obtain ⟨s, hs, hl, hfits⟩ := hk
  obtain ⟨hself, hrest⟩ := Script.forall_nodes_cons.mp hfits
  refine ⟨h.tops ho.tops, s, hs, hl, Script.forall_nodes_append.mpr ⟨?_, hrest⟩⟩
  refine ho.forall_nodes ?_ hself
  rintro times left body ⟨-, hwarp⟩
  exact ⟨List.forall_mem_singleton.mpr trivial, hwarp⟩

section Assembled

variable {data : TargetData} {p : Program} (hp : Assembled data ss p)

include hp

/-- What stands at a label names what may be named in its script. -/
theorem fitting_body {c : Script.Continuation} (hc : p.continuation? l = some c) :
    Fitting ss p.procedures l c.body := by
  obtain ⟨-, s, hs, hl, hbody⟩ := hp.continuation l c hc
  refine ⟨s, hs, hl, ?_⟩
  rw [hbody]
  have hfits := (hp.scripts.whole s hs).fits
  rw [← hp.procedures] at hfits
  exact Script.forall_nodes_bodyAt (fun cond yes no yes' no' hbranch => hbranch) hl hfits

/-- The base of a script that an event starts. -/
theorem belongs_start {e : Event} (hbase : base ∈ p.startedBy e) :
    Belongs ss p.procedures base [] base := by
  obtain ⟨e', hlisten⟩ := Program.mem_startedBy hbase
  rw [hp.closed.listening e'] at hlisten
  obtain ⟨w, hw, rfl⟩ := List.mem_map.mp hlisten
  obtain ⟨s, hs, htrigger, hentry⟩ := mem_waiting (List.mem_filter.mp hw).1
  refine ⟨s, hs, hentry, ⟨w.1, htrigger⟩, ?_⟩
  rw [← hentry]
  exact entry_mem_labels (hp.scripts.whole s hs)

/-- **A thread that leaves for a label is in the script of the label then**: in its own, in that of
    the procedure that it calls, or in that of the caller. -/
theorem Belongs.departs {t t' : Thread} {x : Stmt} {k : Label} {rest : List Stmt}
    (h : Belongs ss p.procedures base t.calls l) (hk : Fitting ss p.procedures l (x :: rest))
    (hd : Act.Departs p x t k t') : Belongs ss p.procedures base t'.calls k := by
  obtain ⟨s, hs, hl, hfits⟩ := hk
  have hself := hfits x (Script.mem_nodes_cons.mpr (.inl (Script.mem_nodesOf_self x)))
  cases hd with
  | queue | forceQueue => exact h.move hp.scripts hs hl hself.2
  | endCall he =>
    obtain ⟨c, calls, hcalls, rfl, rfl⟩ := Thread.exists_of_endCall? he
    rw [hcalls] at h
    exact h.2.2
  | @call id args resume q _ t₁ values hq hkin hr hlen =>
    obtain ⟨hresume, q', hq', hparams⟩ := hself.2
    cases hq.symm.trans hq'
    refine Belongs.call hp hq ?_ ((h.move hp.scripts hs hl hresume).tops hkin.tops)
    rw [List.length_map, hlen, hparams]

/-- The end of a procedure is met inside of one only. -/
theorem calls_ne_nil_of_endCall (h : Belongs ss p.procedures base calls l) {rest : List Stmt}
    (hk : Fitting ss p.procedures l (.endCall :: rest)) : calls ≠ [] := by
  obtain ⟨s, hs, hl, hfits⟩ := hk
  have hself := hfits .endCall (Script.mem_nodes_cons.mpr (.inl (Script.mem_nodesOf_self _)))
  exact h.own hp.scripts hs hl hself.2

end Assembled

end Compile

open Compile in
/-- **Threads are only ever where they belong**, whichever scripts a program comes from. -/
def Discipline.belonging (P : Program → Prop) : Discipline .cut where
  program := P
  thread p t := ∀ data ss, Assembled data ss p →
    Belongs ss p.procedures t.base t.calls t.continuation
  start _ hbase _ _ _ _ hp := belongs_start hp hbase
  ready h _ data ss hp := h data ss hp
  working p t l code := ∀ data ss, Assembled data ss p →
    Belongs ss p.procedures t.base t.calls l ∧ Fitting ss p.procedures l code
  enter := by
    rintro p t _ - h ⟨c, hc, rfl⟩ data ss hp
    exact ⟨h data ss hp, fitting_body hp hc⟩
  onward := by
    intro p s t t' l code rest _ h ho data ss hp
    obtain ⟨hbelongs, hfitting⟩ := h data ss hp
    rw [ho.same.base]
    exact hbelongs.onward hfitting ho
  jump := by
    rintro p s t t' l k _ rest - h hd ⟨c, hc, rfl⟩ data ss hp
    obtain ⟨hbelongs, hfitting⟩ := h data ss hp
    have hthere := hbelongs.departs hp hfitting hd
    rw [← hd.same.base] at hthere
    exact ⟨hthere, fitting_body hp hc⟩
  yield := by
    intro p s t t' l k rest _ h hd data ss hp
    obtain ⟨hbelongs, hfitting⟩ := h data ss hp
    have hthere := hbelongs.departs hp hfitting hd
    rw [← hd.same.base] at hthere
    exact hthere

/-! ## 3. Returns -/

namespace World

variable {H : Type}

open Compile (Belongs Assembled definitions scripts)

/-- In a state of a compiled project each thread belongs where it is. -/
theorem Sound.belongs {P : Program → Prop} {w : World H} (hw : w.Sound (.belonging P))
    {q : Program} {x : Spot} (hx : w.Sees q x) {data : TargetData} {ss : List Compile.Labelled}
    (hq : Assembled data ss q) :
    Belongs ss q.procedures x.thread.base x.thread.calls x.label := by
  cases hx with
  | seat hwaits =>
    obtain ⟨hmem, target, htarget, rfl⟩ := hwaits
    obtain ⟨target', htarget', hthread⟩ := hw.machine.1.thread _ hmem
    cases htarget.symm.trans htarget'
    exact hthread data ss hq
  | work => exact (hw.2.2 data ss hq).1

variable [Host H] {c : Call} {below : List Call} {saved : List Registers} {warp : Nat}
  {t : Thread} {l : Label} {rest : List Stmt}

/-- The end of the procedure of a call is the return from the call. -/
theorem returned_of_endCall {p : Program} {y : Spot} (hinside : t.Inside c below saved warp)
    (hdepth : t.calls.length = below.length + 1)
    (h : Spot.Step .cut p (.work t l (.endCall :: rest)) y) :
    y.thread.Returned c below saved warp ∧
      ∃ k, p.continuation? c.resume = some k ∧ y = .work y.thread c.resume k.body := by
  have hne : t.calls ≠ [] := List.ne_nil_of_length_eq_add_one hdepth
  rcases h.inside hinside with hstill | ⟨hreturned, code, hy, k, hk, rfl⟩
  · -- a call is ended, so the thread is inside of one procedure fewer
    exfalso
    have hlen := hstill.length_lt
    cases h with
    | onward h =>
      cases h with
      | endCall hnil => exact hne hnil
      | done _ hstack => cases hstack
    | yield _ hs => exact hs rfl
    | jump h =>
      cases h with
      | endCall he =>
        obtain ⟨c', calls, hcalls, rfl, rfl⟩ := Thread.exists_of_endCall? he
        rw [hcalls, List.length_cons] at hdepth
        exact absurd hlen (Nat.not_lt.mpr (Nat.le_of_eq (Nat.succ.inj hdepth)))
  · exact ⟨hreturned, k, hk, hy⟩

/-- At the end of the procedure of a call the thread can go on. -/
theorem exists_return {P : Program → Prop} {a : Sighting H}
    (hspot : a.spot = .work t l (.endCall :: rest)) (ha : a.world.Sound (.belonging P))
    {data : TargetData} {ss : List Compile.Labelled} (hq : Assembled data ss a.program)
    (hne : t.calls ≠ []) : ∃ b, Sighting.Step .cut a b := by
  have hbelongs := ha.belongs a.sees hq
  obtain ⟨w, p, x, hsees⟩ := a
  dsimp only at hspot hbelongs hq
  subst hspot
  cases hsees with
  | work turn _ _ length seats =>
    cases hcalls : turn.thread.calls with
    | nil => exact absurd hcalls hne
    | cons c' calls =>
      have hback : Belongs ss turn.program.procedures turn.thread.base (c' :: calls) l := by
        rw [← hcalls]
        exact hbelongs
      obtain ⟨s, hs, hresume⟩ := hback.2.2.script
      obtain ⟨k, hk⟩ := hq.closed.inRange s hs _ hresume
      obtain ⟨t', ht'⟩ : ∃ t', turn.thread.endCall? = some (c'.resume, t') := by
        unfold Thread.endCall?
        rw [hcalls]
        exact ⟨_, rfl⟩
      have hexec : Act.exec .endCall turn =
          .ok (.leave (.jump c'.resume)) { turn with thread := t' } := by
        rw [Act.exec_endCall, ht']
      refine ⟨⟨_, _, _, .work { turn with thread := t' } c'.resume k.body length seats⟩, ?_, ?_⟩
      · exact .jump (R := .cut) hexec ⟨k, hk, rfl⟩ l rest length seats
      · exact Thread.same_endCall? ht'

end World

/-- **Threads are where they belong, and calls return faithfully**, in every run of a compiled
    project. Each thread, in its seat or in its turn, is at a label of the script that its calls say,
    each of its calls goes on in the script around it, and has one argument for each parameter.
    If a thread makes a call, and then is inside of it until it comes to the end of its procedure,
    then it goes on at the label of the call, with the registers, the copies of registers, the calls
    and the depth that it had when the call was made, whatever it and others did in between. -/
theorem World.faithful_returns {H : Type} [Host H] {p : Project} {o : Options} {host : H}
    {s : Surroundings} {m : Machine H} (h : Player.loadProject p o host s = .ok m) :
    (∀ w, World.Arises m w → ∀ q x, w.Sees q x →
      ∃ data ∈ p.targets, ∃ ss count, data.compile p.stage? = .ok q ∧
        (Compile.scripts data p.stage?).run (Compile.definitions data).length = .ok (ss, count) ∧
        Compile.Belongs ss q.procedures x.thread.base x.thread.calls x.label) ∧
    ∀ a b c : Sighting H, World.Arises m a.world →
      ∀ t l id args resume rest, a.spot = .work t l (.call id args resume :: rest) →
      Sighting.Step .cut a b → Sighting.Within .cut (a.spot.depth + 1) b c →
      ∀ t' l' rest', c.spot = .work t' l' (.endCall :: rest') →
      c.spot.depth = a.spot.depth + 1 →
      (∃ d, Sighting.Step .cut c d) ∧
        ∀ d, Sighting.Step .cut c d →
          (∃ k, d.program.continuation? resume = some k ∧
            d.spot = .work d.spot.thread resume k.body) ∧
          d.spot.thread.registers = a.spot.thread.registers ∧
          d.spot.thread.saved = a.spot.thread.saved ∧
          d.spot.thread.warp = a.spot.thread.warp ∧
          d.spot.thread.calls = b.spot.thread.calls.tail ∧
          List.Forall₂ Call.Kin a.spot.thread.calls d.spot.thread.calls := by
  have hstart : World.Sound (.belonging p.Compiles) (.rest m) :=
    World.sound_load h fun _ hq => hq
  refine ⟨fun w hw q x hx => ?_, ?_⟩
  · have hsound := hw.sound hstart
    obtain ⟨data, hdata, hcompile⟩ := hx.program hsound
    obtain ⟨ss, count, hrun, hassembled⟩ := Compile.assembled_of_compile hcompile
    exact ⟨data, hdata, ss, count, hcompile, hrun, hsound.belongs hx hassembled⟩
  · intro a b c ha t l id args resume rest haspot hab hbc t' l' rest' hcspot hdepth
    obtain ⟨hb, hprogram, hcalled⟩ := hab.spot (ha.sound hstart)
    rw [haspot] at hcalled
    obtain ⟨f, hf, hresume, hcaller, hkin, hsaved, hwarp⟩ := hcalled.called
    -- from the call on the thread is inside of it
    have hlength : a.spot.depth = b.spot.thread.calls.tail.length := by
      rw [haspot]
      exact hkin.length_eq
    rw [hlength] at hbc hdepth
    obtain ⟨hc, hprogram', hinside⟩ := hbc.inside hb (.entered _ f hf)
    obtain ⟨data, -, hcompile⟩ := c.sees.program hc
    obtain ⟨ss, count, -, hassembled⟩ := Compile.assembled_of_compile hcompile
    rw [hcspot] at hinside hdepth
    have hne : t'.calls ≠ [] := List.ne_nil_of_length_eq_add_one hdepth
    refine ⟨World.exists_return hcspot hc hassembled hne, fun d hd => ?_⟩
    obtain ⟨-, hsame, hstep⟩ := hd.spot hc
    rw [hcspot] at hstep
    obtain ⟨hreturned, k, hk, hspot⟩ := World.returned_of_endCall hinside hdepth hstep
    rw [hresume] at hk hspot
    rw [haspot]
    refine ⟨⟨k, hsame ▸ hk, hspot⟩, hreturned.registers.trans hcaller, hreturned.saved.trans hsaved,
      hreturned.warp.trans hwarp, hreturned.calls, ?_⟩
    rw [hreturned.calls]
    exact hkin

/-- A sprite that counts by a procedure, which waits and then calls another one. -/
def counting : TargetData where
  name := "Counting"
  blocks := ⟨[
    ("k0", .block { opcode := "event_whenflagclicked", next := some "k1", topLevel := true }),
    ("k1", .block {
      opcode := "procedures_call", next := some "k2"
      inputs := ⟨[("n", .literal (.text "3"))], List.pairwise_singleton _ _⟩
      mutation := some { proccode := some "count %s", argumentIds := some "[\"n\"]" } }),
    ("k2", .block {
      opcode := "looks_say"
      inputs := ⟨[("MESSAGE", .literal (.text "counted"))], List.pairwise_singleton _ _⟩ }),
    ("p0", .block {
      opcode := "procedures_definition", next := some "p1", topLevel := true
      inputs := ⟨[("custom_block", .block "p3")], List.pairwise_singleton _ _⟩ }),
    ("p1", .block {
      opcode := "control_wait", next := some "p2"
      inputs := ⟨[("DURATION", .literal (.text "0"))], List.pairwise_singleton _ _⟩ }),
    ("p2", .block {
      opcode := "procedures_call", mutation := some { proccode := some "rest" } }),
    ("p3", .block {
      opcode := "procedures_prototype"
      mutation := some { proccode := some "count %s", argumentNames := some "[\"n\"]" } }),
    ("q0", .block {
      opcode := "procedures_definition", topLevel := true
      inputs := ⟨[("custom_block", .block "q1")], List.pairwise_singleton _ _⟩ }),
    ("q1", .block {
      opcode := "procedures_prototype", mutation := some { proccode := some "rest" } })],
    by decide⟩

/-- The sprite on a stage. -/
def countingProject : Project := ⟨[{ isStage := true, name := "Stage" }, counting]⟩

/-- Whether the thread at work is about to make a call. -/
def World.isCall {H : Type} : World H → Bool
  | .turn _ _ (.call .. :: _) _ _ => true
  | _ => false

/-- Whether the thread is at the end of a procedure, inside of so many. -/
def Sighting.isEnd {H : Type} (depth : Nat) (a : Sighting H) : Bool :=
  match a.spot with
  | .work t _ (.endCall :: _) => t.calls.length == depth
  | _ => false

/-- The first call after the green flag, what comes right after it, and the end of its
    procedure. -/
def Machine.firstCall? {H : Type} [Host H] (m : Machine H) :
    Option (Sighting H × Sighting H × Sighting H) :=
  ((World.rest m.greenFlag.2).seek? .cut World.isCall 9).bind fun w =>
    (Sighting.atWork? w).bind fun a =>
      (a.next? .cut).bind fun b =>
        (b.seek? .cut (a.spot.depth + 1) (Sighting.isEnd (a.spot.depth + 1)) 99).map fun c =>
          (a, b, c)

theorem Machine.firstCall?_spec {H : Type} [Host H] {m : Machine H} {a b c : Sighting H}
    (h : m.firstCall? = some (a, b, c)) :
    World.Arises m a.world ∧
      (∃ t l id args resume rest, a.spot = .work t l (.call id args resume :: rest)) ∧
      Sighting.Step .cut a b ∧ Sighting.Within .cut (a.spot.depth + 1) b c ∧
      ∃ t l rest, c.spot = .work t l (.endCall :: rest) ∧ c.spot.depth = a.spot.depth + 1 := by
  obtain ⟨w, hw, h⟩ := Option.bind_eq_some_iff.mp h
  obtain ⟨a', ha, h⟩ := Option.bind_eq_some_iff.mp h
  obtain ⟨b', hb, h⟩ := Option.bind_eq_some_iff.mp h
  obtain ⟨c', hc, heq⟩ := Option.map_eq_some_iff.mp h
  cases heq
  obtain ⟨hreaches, hcall⟩ := World.reaches_seek? hw
  obtain ⟨hwithin, hend⟩ := Sighting.within_seek? hc
  refine ⟨?_, ?_, Sighting.step_next? hb, hwithin, ?_⟩
  · rw [Sighting.world_of_atWork? ha]
    exact .head (.greenFlag m) hreaches
  · unfold World.isCall at hcall
    split at hcall
    · cases ha
      exact ⟨_, _, _, _, _, _, rfl⟩
    · cases hcall
  · unfold Sighting.isEnd at hend
    split at hend
    · rename_i hspot
      refine ⟨_, _, _, hspot, ?_⟩
      rw [hspot]
      exact beq_iff_eq.mp hend
    · cases hend

theorem World.counting_returns :
    ∃ m : Machine Headless, ∃ a b c d : Sighting Headless,
      Player.loadProject countingProject {} {} .still = .ok m ∧
      World.Arises m a.world ∧ Sighting.Step .cut a b ∧
      Sighting.Within .cut (a.spot.depth + 1) b c ∧ Sighting.Step .cut c d ∧
      a.world.machine.frame < c.world.machine.frame ∧
      (∃ ss, Compile.Belongs ss c.program.procedures c.spot.thread.base c.spot.thread.calls
        c.spot.label) ∧
      d.spot.thread.registers = a.spot.thread.registers := by
  have hrun : ((Player.loadProject countingProject {} ({} : Headless)
      .still).toOption.bind Machine.firstCall?).map
        (fun s => (s.1.world.machine.frame, s.2.2.world.machine.frame)) = some (0, 1) := by
    decide +kernel
  obtain ⟨⟨a, b, c⟩, hcall, hframes⟩ := Option.map_eq_some_iff.mp hrun
  obtain ⟨m, hm, hcall⟩ := Option.bind_eq_some_iff.mp hcall
  have hload := eq_ok_of_toOption hm
  obtain ⟨ha, ⟨t, l, id, args, resume, rest, haspot⟩, hab, hbc, t', l', rest', hcspot, hdepth⟩ :=
    Machine.firstCall?_spec hcall
  obtain ⟨hbelongs, hreturns⟩ := World.faithful_returns hload
  obtain ⟨⟨d, hcd⟩, hafter⟩ := hreturns a b c ha t l id args resume rest haspot hab hbc t' l'
    rest' hcspot hdepth
  have hc : World.Arises m c.world :=
    .trans (.tail ha hab.1) (Sighting.Within.reaches hbc)
  obtain ⟨data, -, ss, count, -, -, hthere⟩ := hbelongs c.world hc c.program c.spot c.sees
  obtain ⟨-, hregisters, -⟩ := hafter d hcd
  have hlt : a.world.machine.frame < c.world.machine.frame := by
    have hfirst : a.world.machine.frame = 0 := congrArg Prod.fst hframes
    have hsecond : c.world.machine.frame = 1 := congrArg Prod.snd hframes
    rw [hfirst, hsecond]
    exact Nat.zero_lt_one
  exact ⟨m, a, b, c, d, hload, ha, hab, hbc, hcd, hlt, ⟨ss, hthere⟩, hregisters⟩

end BlockScript
