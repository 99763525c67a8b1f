import BlockScript.Proofs.Conditions

/-!
# Registers through a block

Control comes to the start of what a block became, and in the end behind it. In between the thread
may yield, make calls and wait for others. Its registers and the copies of them that it saved are
the same at the end as at the start.

* `Compile.Annotates`: what holds at the labels of all scripts of a program;
* `Discipline.freeing`: threads keep to it, so none enters a block while it waits for a request;
* `Spot.Passing`: a thread that is on its way through some statements;
* `World.registers_kept`: the registers at both ends of a block, in every run of a project.
-/

namespace BlockScript

open Compile (Assembled Labelled Whole Scripts)

/-- No request is waited for. -/
def Condition.free : Condition := fun rs _ => rs.ticket = none

/-- Registers and copies are just these. -/
def Condition.exactly (rs₀ : Registers) (saved₀ : List Registers) : Condition :=
  fun rs saved => rs = rs₀ ∧ saved = saved₀

/-! ## 1. All scripts of a program -/

/-- What is chosen for the labels of some code need not hold at any other. -/
theorem Script.Chosen.exists_within {n n' : Nat} {P : (Label → Condition) → Prop}
    (h : Chosen n n' P) :
    ∃ held, (∀ k rs saved, held k rs saved → Between n n' k) ∧ P held := by
  obtain ⟨f, hf⟩ := h
  refine ⟨fun k rs saved => Between n n' k ∧ f k rs saved, fun _ _ _ hk => hk.1, hf _ ?_⟩
  intro k hk
  funext rs saved
  exact propext ⟨And.right, fun h => ⟨hk, h⟩⟩

namespace Compile

open Script (labels Takes)

/-- What is held at labels fits to the scripts: each of them can be entered and resumed while no
    request is waited for. -/
def Annotates (held : Label → Condition) (ss : List Labelled) : Prop :=
  ∀ s ∈ ss, Takes held .free s.body .free ∧ held s.entry = .free

/-- A script can be annotated, whatever is held at the labels of others. -/
theorem Whole.annotated {procedures : List Procedure} {s : Labelled} (h : Whole procedures s) :
    ∃ held : Label → Condition, ∀ held', (∀ l ∈ labels s.body, held' l = held l) →
      Takes held' .free s.body .free ∧ held' s.entry = .free := by
  obtain ⟨n, code, n', hbody, hcode, hentry⟩ := h.emitted
  have hchosen : Script.Chosen n n' fun held => Takes held .free code .free :=
    hcode.takes fun _ _ h => h
  obtain ⟨held, hheld⟩ := hchosen
  refine ⟨fun l => if l = s.entry then .free else held l, fun held' hagree => ?_⟩
  rw [hbody] at hagree ⊢
  have hfirst : held' s.entry = .free :=
    (hagree s.entry List.mem_cons_self).trans (if_pos rfl)
  refine ⟨(Takes.label hfirst).cons (hheld held' fun l hl => ?_), hfirst⟩
  have hne : l ≠ s.entry := fun heq => hentry (heq ▸ hl)
  have hmem := List.mem_cons_of_mem s.entry ((hcode.fragment.mem_labels l).mpr hl)
  exact (hagree l hmem).trans (if_neg hne)

/-- The scripts of a target agree on what is held at labels. -/
theorem exists_annotation {t : TargetData} {ss : List Labelled} {count : Nat}
    (h : Scripts t ss count) : ∃ held, Annotates held ss := by
  classical
  have hown : ∀ s ∈ ss, ∃ held : Label → Condition, ∀ held',
      (∀ l ∈ labels s.body, held' l = held l) →
        Takes held' .free s.body .free ∧ held' s.entry = .free :=
    fun s hs => (h.whole s hs).annotated
  choose! own hown using hown
  refine ⟨fun l => if hl : ∃ s ∈ ss, l ∈ labels s.body then own hl.choose l else .free,
    fun s hs => hown s hs _ fun l hl => ?_⟩
  have hex : ∃ s ∈ ss, l ∈ labels s.body := ⟨s, hs, hl⟩
  have hsame : hex.choose = s := script_unique h hs hex.choose_spec.1 hl hex.choose_spec.2
  rw [dif_pos hex, hsame]

end Compile

/-! ## 2. Threads -/

namespace Script

open Compile (Annotates)

/-- Each of the calls goes on, when the one inside it ends, with what is held at its label. -/
def Awaits (held : Label → Condition) (saved : List Registers) : List Call → Prop
  | [] => True
  | c :: rest => held c.resume c.caller (Call.savedIn saved rest) ∧ Awaits held saved rest

variable {held : Label → Condition} {post : Condition} {t t' : Thread} {p : Program}
  {source : Program → List Labelled}

theorem Awaits.tops (h : Awaits held t.saved t.calls) (ht : Thread.Tops t t') :
    Awaits held t'.saved t'.calls := by
  rcases ht.calls with ⟨-, hnil⟩ | ⟨c, c', rest, hc, hc', hsame⟩
  · rw [hnil]
    exact trivial
  · have hsaved := ht.saved (hc ▸ List.cons_ne_nil c rest)
    rw [hc] at h
    rw [hc', hsaved]
    refine ⟨?_, h.2⟩
    rw [hsame.resume, hsame.caller]
    exact h.1

/-- The thread can go on at a label, and its calls behind it. -/
def Stands (held : Label → Condition) (t : Thread) (l : Label) : Prop :=
  held l t.registers t.saveStack ∧ Awaits held t.saved t.calls

/-- A thread that leaves for a label can go on there. -/
theorem before_departs {data : TargetData} (hp : Assembled data (source p) p)
    (hheld : Annotates held (source p)) {s : Stmt} {rest : List Stmt} {k : Label}
    (h : before held (s :: rest) post t.registers t.saveStack)
    (hcalls : Awaits held t.saved t.calls) (hd : Act.Departs p s t k t') : Stands held t' k := by
  obtain ⟨-, h⟩ := h
  cases hd with
  | queue | forceQueue => exact ⟨h, hcalls⟩
  | endCall he =>
    obtain ⟨c, calls, hc, rfl, rfl⟩ := Thread.exists_of_endCall? he
    rw [hc] at hcalls
    refine ⟨?_, hcalls.2⟩
    rw [Thread.saveStack_eq]
    exact hcalls.1
  | @call id args resume q _ t₁ values hq hk hr =>
    rw [Program.procedure?, hp.procedures] at hq
    obtain ⟨s, hs, -, hentry⟩ := Compile.exists_script hp.scripts hq
    refine ⟨?_, ?_, hcalls.tops hk.tops⟩
    · rw [← hentry, (hheld s hs).2]
      exact rfl
    · show held resume t₁.registers (Call.savedIn t₁.saved t₁.calls)
      rw [← t₁.saveStack_eq, hk.saveStack, hr]
      exact h

end Script

open Script in
/-- **Threads keep to what is held at the labels of their scripts**, and the labels among the
    statements at hand are in place. -/
def Discipline.freeing (source : Program → List Labelled) : Discipline (.whole source) where
  program := Program.Stems source
  thread p t := ∀ held, Compile.Annotates held (source p) → Stands held t t.continuation
  start := by
    rintro p e base ⟨data, hp⟩ hbase target group held hheld
    obtain ⟨s, hs, hentry, -⟩ := Compile.belongs_start hp hbase
    refine ⟨?_, trivial⟩
    show held base _ _
    rw [← hentry, (hheld s hs).2]
    exact rfl
  ready h _ held hheld := h held hheld
  working p t _ code := Placed (.whole source) p code ∧ ∀ held, Compile.Annotates held (source p) →
    before held code .free t.registers t.saveStack ∧ Awaits held t.saved t.calls
  enter := by
    intro p t code hp h hc
    refine ⟨placed_whole hp hc, fun held hheld => ?_⟩
    obtain ⟨s, hs, tails, hrem, rfl⟩ := hc
    obtain ⟨hthere, hcalls⟩ := h held hheld
    exact ⟨(hheld s hs).1.resume _ tails hrem _ _ hthere, hcalls⟩
  onward := by
    rintro p s t t' l code rest hp ⟨hplaced, h⟩ ho
    refine ⟨hplaced.onward ho, fun held hheld => ?_⟩
    obtain ⟨hbefore, hcalls⟩ := h held hheld
    exact ⟨before_onward hbefore ho, hcalls.tops ho.tops⟩
  jump := by
    rintro p s t t' l k code rest hp ⟨-, h⟩ hd hc
    refine ⟨placed_whole hp hc, fun held hheld => ?_⟩
    obtain ⟨data, hassembled⟩ := hp
    obtain ⟨s', hs', tails, hrem, rfl⟩ := hc
    obtain ⟨hbefore, hcalls⟩ := h held hheld
    obtain ⟨hthere, hcalls'⟩ := before_departs hassembled hheld hbefore hcalls hd
    exact ⟨(hheld s' hs').1.resume _ tails hrem _ _ hthere, hcalls'⟩
  yield := by
    rintro p s t t' l k rest ⟨data, hassembled⟩ ⟨-, h⟩ hd held hheld
    obtain ⟨hbefore, hcalls⟩ := h held hheld
    have hthere : Stands held t' k := before_departs hassembled hheld hbefore hcalls hd
    exact hthere

/-! ## 3. On the way through some statements -/

namespace Spot

open Script (before)

/-- The thread is at work inside of so many procedures, with just these statements left. -/
def At (depth : Nat) (code : List Stmt) (x : Spot) : Prop :=
  ∃ t l, x = .work t l code ∧ t.calls.length = depth

/-- The thread is on its way through some statements, behind which there are others. -/
inductive Passing (held : Label → Condition) (post : Condition) (behind : List Stmt)
    (depth : Nat) : Spot → Prop
  | work {t : Thread} {code : List Stmt} (hdepth : t.calls.length = depth)
      (h : before held code post t.registers t.saveStack) (l : Label) :
      Passing held post behind depth (.work t l (code ++ behind))
  | seat {t : Thread} (hdepth : t.calls.length = depth)
      (h : held t.continuation t.registers t.saveStack) :
      Passing held post behind depth (.seat t)
  /-- The thread is inside of a call, behind which it goes on. -/
  | inside {x : Spot} {c : Call} {below : List Call} {saved : List Registers} {warp : Nat}
      (hdepth : below.length = depth) (hinside : x.thread.Inside c below saved warp)
      (h : held c.resume c.caller (Call.savedIn saved below)) : Passing held post behind depth x

variable {held : Label → Condition} {post : Condition} {behind : List Stmt} {depth : Nat}
  {R : Rules} {p : Program} {x y : Spot}

/-- After a call the thread is inside of it. -/
theorem passing_call {id : ProcId} {args : List Expr} {resume k : Label} {t t' : Thread}
    (h : held resume t.registers t.saveStack) (hdepth : t.calls.length = depth)
    (hd : Act.Departs p (.call id args resume) t k t') (hy : y.thread.calls = t'.calls)
    (hsaved : y.thread.saved = t'.saved) : Passing held post behind depth y := by
  cases hd with
  | @call _ _ _ q _ t₁ values hq hk hr =>
    refine .inside ?_ (.entered y.thread _ hy) ?_
    · rw [← hdepth]
      exact hk.length_calls
    · show held resume t₁.registers (Call.savedIn y.thread.saved t₁.calls)
      have hcalled : y.thread.saved = t₁.saved := hsaved
      rw [hcalled, ← t₁.saveStack_eq, hk.saveStack, hr]
      exact h

/-- **A step leaves the thread on its way**, as long as it does not leave the call that it is in. -/
theorem Passing.step (hx : Passing held post behind depth x)
    (hR : ∀ k rs saved, held k rs saved → ∀ code', R.finds p k code' →
      ∃ code, code' = code ++ behind ∧ before held code post rs saved)
    (hstep : Spot.Step R p x y) (hy : depth ≤ y.depth) (hend : ¬ x.At depth behind) :
    Passing held post behind depth y := by
  cases hx with
  | @work t code hdepth h l =>
    cases code with
    | nil => exact absurd ⟨t, l, rfl, hdepth⟩ hend
    | cons s rest =>
      cases hstep with
      | @onward _ _ t' code ho =>
        have hnext : Passing held post behind depth (.work t' l ((code ++ rest) ++ behind)) :=
          .work (ho.length_calls.trans hdepth) (Script.before_onward h ho) l
        rw [List.append_assoc] at hnext
        exact hnext
      | @jump _ _ t' k code' hd hc =>
        cases hd with
        | queue | forceQueue =>
          obtain ⟨code, rfl, hbefore⟩ := hR k _ _ h.2 code' hc
          exact .work hdepth hbefore k
        | call hq hk hr hvalues => exact passing_call h.2 hdepth (.call hq hk hr hvalues) rfl rfl
        | endCall he =>
          -- this would leave the call
          obtain ⟨c, calls, hcalls, rfl, rfl⟩ := Thread.exists_of_endCall? he
          rw [hcalls, List.length_cons] at hdepth
          have hlen : depth ≤ calls.length := hy
          omega
      | @yield _ _ t' k hd hs =>
        cases hd with
        | queue | forceQueue => exact .seat hdepth h.2
        | call hq hk hr hvalues => exact passing_call h.2 hdepth (.call hq hk hr hvalues) rfl rfl
        | endCall => exact absurd rfl hs
  | @seat t hdepth h =>
    cases hstep with
    | stay _ ready => exact .seat hdepth h
    | enter hc =>
      obtain ⟨code, rfl, hbefore⟩ := hR _ _ _ h _ hc
      exact .work hdepth hbefore _
  | inside hdepth hinside h =>
    rcases hstep.inside hinside with hstill | ⟨hreturned, code', hspot, hc⟩
    · exact .inside hdepth hstill h
    · obtain ⟨code, rfl, hbefore⟩ := hR _ _ _ h code' hc
      rw [hspot]
      refine .work ?_ ?_ _
      · rw [hreturned.calls]
        exact hdepth
      · rw [hreturned.registers, Thread.saveStack_eq, hreturned.saved, hreturned.calls]
        exact hbefore

end Spot

/-! ## 4. From the start of a block to its end -/

namespace Compile

/-- Where blocks of a target stand: below a hat for an event, or in the definition of a
    procedure. -/
inductive Setting (t : TargetData) (stage : Option TargetData) : Context → Prop
  | hat : Setting t stage (.of t stage (procedures t))
  | procedure {id : ProcId} {p : Procedure} (hp : (procedures t)[id]? = some p) :
      Setting t stage ((Context.of t stage (procedures t)).enter id p)

theorem Setting.proper {t : TargetData} {stage : Option TargetData} {c : Context}
    (h : Setting t stage c) : c.Proper := by
  cases h with
  | hat => exact proper_context t stage
  | procedure hp => exact (proper_enter hp).2

/-- What a block became, or a stack of them, wherever it stands. -/
inductive Becomes (c : Context) : List Stmt → Prop
  | block {depth : Nat} {path : Path} {b : Block} {n n' : Nat} {code : List Stmt}
      (h : (commandAt c depth path b).compile n = .ok (code, n')) : Becomes c code
  | stack {depth : Nat} {path : Path} {first : Option String} {n n' : Nat} {code : List Stmt}
      (h : stackAt c depth path first n = .ok (code, n')) : Becomes c code

theorem Becomes.emitted {t : TargetData} {stage : Option TargetData} {c : Context}
    {code : List Stmt} (h : Becomes c code) (hc : Setting t stage c) :
    ∃ n n', Script.Emitted c.procedures c.own n code n' := by
  cases h with
  | block h => exact ⟨_, _, emitted_commandAt hc.proper h⟩
  | stack h => exact ⟨_, _, emitted_stackAt hc.proper h⟩

end Compile

namespace Sighting

variable {H : Type} [Host H] {R : Rules} {D : Discipline R} {a b : Sighting H}
  {held : Label → Condition} {post : Condition} {behind : List Stmt} {depth : Nat}

/-- A run in which the thread does not leave the call that it is in, up to where just these
    statements are left. -/
def Through (R : Rules) (depth : Nat) (behind : List Stmt) : Sighting H → Sighting H → Prop :=
  Relation.ReflTransGen fun a b => Step R a b ∧ depth ≤ b.spot.depth ∧ ¬ a.spot.At depth behind

/-- All along the run the thread is on its way. -/
theorem Through.passing (h : Through R depth behind a b) (ha : a.world.Sound D)
    (hR : ∀ k rs saved, held k rs saved → ∀ code', R.finds a.program k code' →
      ∃ code, code' = code ++ behind ∧ Script.before held code post rs saved)
    (hx : a.spot.Passing held post behind depth) :
    b.world.Sound D ∧ b.program = a.program ∧ b.spot.Passing held post behind depth := by
  induction h with
  | refl => exact ⟨ha, rfl, hx⟩
  | tail _ hstep ih =>
    obtain ⟨hb, hprogram, hpassing⟩ := ih
    obtain ⟨hc, hprogram', hspot⟩ := hstep.1.spot hb
    rw [hprogram] at hspot hprogram'
    exact ⟨hc, hprogram', hpassing.step hR hspot hstep.2.1 hstep.2.2⟩

/-- Where nothing is left to pass, the run ends at once. -/
theorem Through.eq_of_at (h : Through R depth behind a b) (ha : a.spot.At depth behind) :
    b = a := by
  induction h using Relation.ReflTransGen.head_induction_on with
  | refl => rfl
  | head hstep => exact absurd ha hstep.2.2

end Sighting

namespace Spot

variable {held : Label → Condition} {post : Condition} {behind : List Stmt} {depth : Nat} {x : Spot}

/-- What is left to do for a thread on its way. -/
theorem Passing.before_of_at (h : Passing held post behind depth x) {code : List Stmt}
    (hx : x.At depth (code ++ behind)) :
    Script.before held code post x.thread.registers x.thread.saveStack := by
  obtain ⟨t, l, hspot, hdepth⟩ := hx
  cases h with
  | work _ h l =>
    injection hspot with hthread _ hcode
    rw [List.append_cancel_right hcode] at h
    exact h
  | seat => cases hspot
  | inside hbelow hinside =>
    have hlt := hinside.length_lt
    rw [hspot] at hlt
    exact absurd hlt (by rw [hbelow, ← hdepth]; exact Nat.lt_irrefl _)

end Spot

open Script in
/-- A thread that comes through code of a script has its registers again, and before a last restore
    it has them saved. -/
theorem Sighting.Through.registers_eq {H : Type} [Host H] {source : Program → List Labelled}
    {a b : Sighting H} {procedures : List Procedure} {own : Option Procedure} {n n' : Nat}
    {code behind : List Stmt} (hcode : Emitted procedures own n code n') {t : Thread} {l : Label}
    (hspot : a.spot = .work t l (code ++ behind)) (ha : a.world.Sound (.freeing source))
    (h : Through (.whole source) a.spot.depth behind a b) :
    (b.spot.At a.spot.depth behind →
      b.spot.thread.registers = t.registers ∧ b.spot.thread.saveStack = t.saveStack) ∧
    (b.spot.At a.spot.depth (.restore :: behind) →
      b.spot.thread.saveStack = t.registers :: t.saveStack) := by
  have hstart : a.spot.depth = t.calls.length := by
    rw [hspot]
    rfl
  by_cases hnil : code = []
  · subst hnil
    obtain rfl := h.eq_of_at ⟨t, l, hspot, hstart.symm⟩
    rw [hspot]
    refine ⟨fun _ => ⟨rfl, rfl⟩, ?_⟩
    rintro ⟨t', l', heq, -⟩
    injection heq with _ _ heq
    exact absurd (congrArg List.length heq) (by simp)
  -- the state keeps to what is held in all scripts
  obtain ⟨data, hassembled⟩ := a.sees.program ha
  obtain ⟨hplaced, hfree⟩ : Placed (.whole source) a.program (code ++ behind) ∧
      ∀ held, Compile.Annotates held (source a.program) →
        before held (code ++ behind) .free t.registers t.saveStack ∧
          Awaits held t.saved t.calls := by
    obtain ⟨w, p, x, hx⟩ := a
    cases hspot
    cases hx
    exact ha.2.2
  obtain ⟨heldAll, hheldAll⟩ := Compile.exists_annotation hassembled.scripts
  have hticket : t.registers.ticket = none := hcode.ticket hnil (hfree heldAll hheldAll).1
  -- what is held at the labels of the code, if its end is to be as its start
  let same := Condition.exactly t.registers t.saveStack
  have hchosen : Chosen n n' fun held => Takes held same code same :=
    hcode.takes fun rs saved hrs => hrs.1 ▸ hticket
  obtain ⟨held, hwithin, htakes⟩ := hchosen.exists_within
  have hpassing : b.spot.Passing held same behind a.spot.depth := by
    refine (h.passing ha (fun k rs saved hk code' hc => ?_) ?_).2.2
    · have hlabel := (hcode.fragment.mem_labels k).mpr (hwithin k rs saved hk)
      obtain ⟨tails, hrem, -⟩ := exists_remains hlabel
      refine ⟨tails.flatten, ?_, htakes.resume k tails hrem rs saved hk⟩
      exact Program.Stems.unique ⟨data, hassembled⟩ (hplaced.left hrem) hc
    · rw [hstart, hspot]
      exact .work rfl (htakes.start _ _ ⟨rfl, rfl⟩) l
  refine ⟨fun hend => ?_, fun hend => ?_⟩
  · have hlast : before held [] same _ _ := hpassing.before_of_at hend
    exact hlast
  · have hlast : before held [.restore] same _ _ := hpassing.before_of_at hend
    obtain ⟨-, rs, rest, hsaved, rfl, rfl⟩ := hlast
    exact hsaved

/-- **Registers are kept through every block**, in every run of a compiled project.

    A run of the project, in which a thread is followed, is also a run of the scripts from which its
    programs were made, where the statements that a block became can be told apart. There, if a
    thread stands at the start of what a block became, and comes to its end without leaving the call
    that it is in, then it has the registers and the copies of them that it had at the start,
    whatever it and others did in between. If it comes to a restore that ends the block, then the
    latest copy is that of its registers at the start, and the others are those that it had then. -/
theorem World.registers_kept {H : Type} [Host H] {p : Project} {o : Options} {host : H}
    {s : Surroundings} {m : Machine H} {source : Program → List Labelled}
    (h : Player.loadProject p o host s = .ok m) (hsource : p.Sourced source) :
    (∀ a : Sighting H, World.Arises m a.world →
      (∃ a' : Sighting H, World.Reaches (.whole source) (.rest m) a'.world ∧ a'.Uncut a) ∧
      ∀ a' b : Sighting H, a'.Uncut a → Sighting.Within .cut a.spot.depth a b →
        ∃ b', Sighting.Within (.whole source) a.spot.depth a' b' ∧ b'.Uncut b) ∧
    ∀ data stage c code, Compile.Setting data stage c → Compile.Becomes c code →
      ∀ a b : Sighting H, World.Reaches (.whole source) (.rest m) a.world →
      ∀ t l behind, a.spot = .work t l (code ++ behind) →
      Sighting.Through (.whole source) a.spot.depth behind a b →
      (b.spot.At a.spot.depth behind →
        b.spot.thread.registers = t.registers ∧ b.spot.thread.saveStack = t.saveStack) ∧
      (b.spot.At a.spot.depth (.restore :: behind) →
        b.spot.thread.saveStack = t.registers :: t.saveStack) := by
  have hstems (q : Program) (hq : p.Compiles q) : q.Stems source := hsource.stems hq
  constructor
  · intro a ha
    have hstart : World.Sound (.belonging (Program.Stems source)) (.rest m) :=
      World.sound_load h hstems
    refine ⟨?_, fun a' b hu hab => hab.uncut (Nat.le_refl _) hu (World.Reaches.sound ha hstart)⟩
    obtain ⟨w, hw, hu⟩ := World.Reaches.uncut ha hstart (.rest m)
    obtain ⟨a', rfl, hu'⟩ := Sighting.exists_uncut hu
    exact ⟨a', hw, hu'⟩
  · intro data stage c code hc hcode a b ha t l behind hspot hab
    have hstart : World.Sound (.freeing source) (.rest m) := World.sound_load h hstems
    obtain ⟨n, n', hemitted⟩ := hcode.emitted hc
    exact hab.registers_eq hemitted hspot (World.Reaches.sound ha hstart)

/-- A block that repeats another for each letter of a text. -/
def tickingRepeat : Block where
  opcode := "control_repeat"
  inputs := ⟨[("SUBSTACK", .block "t3"), ("TIMES", .block "t2")], by decide⟩

/-- A sprite that repeats a call of a procedure, which has a loop of its own. -/
def ticking : TargetData where
  name := "Ticking"
  blocks := ⟨[
    ("t0", .block { opcode := "event_whenflagclicked", next := some "t1", topLevel := true }),
    ("t1", .block tickingRepeat),
    ("t2", .block {
      opcode := "operator_length"
      inputs := ⟨[("STRING", .literal (.text "ab"))], List.pairwise_singleton _ _⟩ }),
    ("t3", .block {
      opcode := "procedures_call", mutation := some { proccode := some "tick" } }),
    ("u0", .block {
      opcode := "procedures_definition", next := some "u1", topLevel := true
      inputs := ⟨[("custom_block", .block "u3")], List.pairwise_singleton _ _⟩ }),
    ("u1", .block {
      opcode := "control_repeat"
      inputs := ⟨[("TIMES", .block "u2")], List.pairwise_singleton _ _⟩ }),
    ("u2", .block {
      opcode := "operator_length"
      inputs := ⟨[("STRING", .literal (.text "c"))], List.pairwise_singleton _ _⟩ }),
    ("u3", .block {
      opcode := "procedures_prototype", mutation := some { proccode := some "tick" } })],
    by decide⟩

/-- The sprite on a stage. -/
def tickingProject : Project := ⟨[{ isStage := true, name := "Stage" }, ticking]⟩

/-- What a loop over the letters of a text became. -/
def overLetters (l : Label) (text : String) (body : List Stmt) : List Stmt :=
  Compile.yieldingRepeat l (.cast .number (.length (.const (.text text)))) body

/-- What the loop in the script of the sprite became. -/
def tickingLoop : List Stmt := overLetters 3 "ab" [.call 0 [] 2, .label 2]

/-- The scripts of each program of the project. -/
def tickingSource (q : Program) : List Labelled :=
  if q.procedures.isEmpty then []
  else
    [⟨.event .flag, 1, .label 1 :: tickingLoop ++ [.return]⟩,
      ⟨.procedure 0, 0, .label 0 :: overLetters 4 "c" [] ++ [.endCall, .return]⟩]

theorem sourced_ticking : tickingProject.Sourced tickingSource := by
  rintro q ⟨data, hdata, hcompile⟩
  refine ⟨data, hdata, hcompile, ?_⟩
  obtain ⟨ss, count, -, hassembled⟩ := Compile.assembled_of_compile hcompile
  unfold tickingSource
  rw [hassembled.procedures]
  rcases List.mem_cons.mp hdata with rfl | hdata
  · exact ⟨0, rfl⟩
  · obtain rfl := List.mem_singleton.mp hdata
    exact ⟨5, rfl⟩

/-- The thread that is about to enter the script, and has the loop at hand. -/
def World.entering? {H : Type} : World H → Option (Sighting H)
  | .pass m length (i :: seats) =>
    (m.ready? i).bind fun t =>
      (m.target? t.target).bind fun target =>
        if t.continuation = 1 ∧ target.program.procedures.isEmpty = false then
          some ⟨_, _, _, .work ⟨m.lend i t, t, i, target.program⟩ t.continuation
            (tickingLoop ++ [.return]) length seats⟩
        else none
  | _ => none

theorem World.step_entering? {H : Type} [Host H] {w : World H} {a : Sighting H}
    (h : w.entering? = some a) : World.Step (.whole tickingSource) w a.world ∧
      ∃ t l, a.spot = .work t l (tickingLoop ++ [.return]) := by
  unfold entering? at h
  split at h
  · rename_i m length i seats
    obtain ⟨t, hready, h⟩ := Option.bind_eq_some_iff.mp h
    obtain ⟨target, htarget, h⟩ := Option.bind_eq_some_iff.mp h
    split at h
    · rename_i hfirst
      cases h
      refine ⟨.enter hready htarget ?_ length seats, t, _, rfl⟩
      refine (Finder.whole tickingSource).reads ?_
      rw [hfirst.1]
      show (tickingSource target.program).findSome? _ = _
      unfold tickingSource
      rw [hfirst.2]
      rfl
    · cases h
  · cases h

/-- Whether the thread is at the restore that ends the loop. -/
def Spot.isRestore : Spot → Bool
  | .work t _ [.restore, .return] => t.calls.length == 0
  | _ => false

/-- Whether the thread is right behind the loop. -/
def Spot.isBehind : Spot → Bool
  | .work t _ [.return] => t.calls.length == 0
  | _ => false

theorem Spot.isRestore_iff {x : Spot} : x.isRestore = true ↔ x.At 0 [.restore, .return] := by
  refine ⟨fun h => ?_, ?_⟩
  · unfold isRestore at h
    split at h
    · exact ⟨_, _, rfl, beq_iff_eq.mp h⟩
    · cases h
  · rintro ⟨t, l, rfl, hdepth⟩
    exact beq_iff_eq.mpr hdepth

theorem Spot.isBehind_iff {x : Spot} : x.isBehind = true ↔ x.At 0 [.return] := by
  refine ⟨fun h => ?_, ?_⟩
  · unfold isBehind at h
    split at h
    · exact ⟨_, _, rfl, beq_iff_eq.mp h⟩
    · cases h
  · rintro ⟨t, l, rfl, hdepth⟩
    exact beq_iff_eq.mpr hdepth

/-- The first passage through the loop after the green flag: at its start, at the restore that ends
    it, and behind it. -/
def Machine.firstPassage? {H : Type} [Host H] (m : Machine H) :
    Option (Sighting H × Sighting H × Sighting H) :=
  let f := Finder.whole tickingSource
  ((World.rest m.greenFlag.2).seek? f (fun w => w.entering?.isSome) 9).bind fun w =>
    w.entering?.bind fun a =>
      (a.seek? f 0 (fun b => b.spot.isRestore || b.spot.isBehind) 99).bind fun b =>
        (b.next? f).map fun c => (a, b, c)

theorem Machine.firstPassage?_spec {H : Type} [Host H] {m : Machine H} {a b c : Sighting H}
    (h : m.firstPassage? = some (a, b, c)) (hb : b.spot.isRestore = true) :
    World.Reaches (.whole tickingSource) (.rest m) a.world ∧
      (∃ t l, a.spot = .work t l (tickingLoop ++ [.return])) ∧
      Sighting.Through (.whole tickingSource) 0 [.return] a b ∧
      Sighting.Through (.whole tickingSource) 0 [.return] a c := by
  obtain ⟨w, hw, h⟩ := Option.bind_eq_some_iff.mp h
  obtain ⟨a', ha, h⟩ := Option.bind_eq_some_iff.mp h
  obtain ⟨b', hrun, h⟩ := Option.bind_eq_some_iff.mp h
  obtain ⟨c', hc, heq⟩ := Option.map_eq_some_iff.mp h
  cases heq
  obtain ⟨hreaches, -⟩ := World.reaches_seek? hw
  obtain ⟨hstep, hspot⟩ := World.step_entering? ha
  have hthrough : Sighting.Through (.whole tickingSource) 0 [.return] a b := by
    refine Relation.ReflTransGen.mono (fun x y hxy => ⟨hxy.1, hxy.2.1, fun hat => ?_⟩) _ _
      (Sighting.seek?_spec hrun).1
    have hbehind := (Bool.or_eq_false_iff.mp hxy.2.2).2
    exact Bool.false_ne_true (hbehind.symm.trans (Spot.isBehind_iff.mpr hat))
  have hnot : ¬ b.spot.At 0 [.return] := by
    rintro ⟨t, l, hbspot, -⟩
    rw [hbspot] at hb
    cases hb
  exact ⟨.head (.greenFlag m) (.tail hreaches hstep), hspot, hthrough,
    .tail hthrough ⟨Sighting.step_next? hc, Nat.zero_le _, hnot⟩⟩

theorem World.ticking_kept :
    ∃ m : Machine Headless, ∃ a b c : Sighting Headless,
      Player.loadProject tickingProject {} {} .still = .ok m ∧
      tickingProject.Sourced tickingSource ∧
      World.Reaches (.whole tickingSource) (.rest m) a.world ∧
      Sighting.Through (.whole tickingSource) 0 [.return] a b ∧
      b.spot.At 0 [.restore, .return] ∧
      Sighting.Through (.whole tickingSource) 0 [.return] a c ∧ c.spot.At 0 [.return] ∧
      a.world.machine.frame < c.world.machine.frame ∧
      b.spot.thread.saveStack = a.spot.thread.registers :: a.spot.thread.saveStack ∧
      c.spot.thread.registers = a.spot.thread.registers ∧
      c.spot.thread.saveStack = a.spot.thread.saveStack := by
  have hrun : ((Player.loadProject tickingProject {} ({} : Headless)
      .still).toOption.bind Machine.firstPassage?).map
        (fun s => ((s.1.spot.depth, s.1.world.machine.frame),
          (s.2.1.spot.isRestore, s.2.2.spot.isBehind), s.2.2.world.machine.frame)) =
        some ((0, 0), (true, true), 4) := by
    decide +kernel
  obtain ⟨⟨a, b, c⟩, hpassage, hends⟩ := Option.map_eq_some_iff.mp hrun
  obtain ⟨m, hm, hpassage⟩ := Option.bind_eq_some_iff.mp hpassage
  have hdepth : a.spot.depth = 0 := congrArg (·.1.1) hends
  have hstart : a.world.machine.frame = 0 := congrArg (·.1.2) hends
  have hrestore : b.spot.isRestore = true := congrArg (·.2.1.1) hends
  have hbehind : c.spot.isBehind = true := congrArg (·.2.1.2) hends
  have hend : c.world.machine.frame = 4 := congrArg (·.2.2) hends
  obtain ⟨ha, ⟨t, l, hspot⟩, hab, hac⟩ := Machine.firstPassage?_spec hpassage hrestore
  have hb := Spot.isRestore_iff.mp hrestore
  have hc := Spot.isBehind_iff.mp hbehind
  have hlt : a.world.machine.frame < c.world.machine.frame := by
    rw [hstart, hend]
    exact Nat.zero_lt_succ 3
  have hbecomes : Compile.Becomes (.of ticking tickingProject.stage? (Compile.procedures ticking))
      tickingLoop :=
    .block (show (Compile.commandAt _ 9 ["t1"] tickingRepeat).compile 2 = .ok (tickingLoop, 4)
      from rfl)
  have hload := eq_ok_of_toOption hm
  obtain ⟨-, hkept⟩ := World.registers_kept hload sourced_ticking
  have hthread : a.spot.thread = t := by
    rw [hspot]
    rfl
  have hkept' := fun x => hkept ticking tickingProject.stage? _ tickingLoop .hat hbecomes a x ha t
    l [.return] hspot
  rw [hdepth] at hkept'
  obtain ⟨hregisters, hstack⟩ := (hkept' c hac).1 hc
  refine ⟨m, a, b, c, hload, sourced_ticking, ha, hab, hb, hac, hc, hlt, ?_, ?_, ?_⟩
  · rw [hthread]
    exact (hkept' b hab).2 hb
  · rw [hthread]
    exact hregisters
  · rw [hthread]
    exact hstack

end BlockScript
