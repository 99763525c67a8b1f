import BlockScript.Proofs.Loops
import BlockScript.Proofs.Passages

/-!
# Native loops at work

A loop block becomes a native loop only in a procedure that runs without yielding, and around no
label. Wherever a thread comes to it, the thread does not yield, so that it does the same as in the
loop that yields.

* `Compile.Command.Loops`: the blocks that are loops, with their bodies;
* `Script.Holds`: where some code stands in a script, and what follows it;
* `Thread.Tallied`, `Discipline.tallying`: a thread counts the calls that keep it from yielding;
* `World.coherent_of_native`, `World.coherent_of_block`: what holds of a thread that comes to a
  native loop, and to any block;
* `World.native_loops_agree`: a native loop does what the loop that yields does, and every run comes
  to it without yielding.
-/

namespace BlockScript

/-! ## 1. Blocks that are loops -/

namespace Compile.Command

open Script (Emitted)

/-- The block is a loop with a body, which takes labels from one up to another. -/
inductive Loops (s : Command) (n : Label) : Loop → List Stmt → Label → Prop
  | «repeat» {times : Expr} {body : List Stmt} {m : Label}
      (hopcode : s.block.opcode = "control_repeat") (htimes : s.number "TIMES" = .ok times)
      (hbody : s.substack "SUBSTACK" n = .ok (body, m)) : Loops s n (.counted times) body m
  | forever {body : List Stmt} {m : Label} (hopcode : s.block.opcode = "control_forever")
      (hbody : s.substack "SUBSTACK" n = .ok (body, m)) : Loops s n .endless body m
  | «while» {cond : Expr} {body : List Stmt} {m : Label}
      (hopcode : s.block.opcode = "control_while") (hcond : s.boolean "CONDITION" = .ok cond)
      (hbody : s.substack "SUBSTACK" n = .ok (body, m)) : Loops s n (.conditional cond) body m
  | repeatUntil {cond : Expr} {body : List Stmt} {m : Label}
      (hopcode : s.block.opcode = "control_repeat_until")
      (hcond : s.boolean "CONDITION" = .ok cond)
      (hbody : s.substack "SUBSTACK" n = .ok (body, m)) :
      Loops s n (.conditional (.not cond)) body m

variable {s : Command} {n m : Label} {loop : Loop} {body : List Stmt}

theorem compile_eq_lower {α : Type} {x : Except Error α} {a : α} (loop : α → Loop)
    (h : s.compile? = some (do
      let a ← x
      s.lower (loop a) (← s.substack "SUBSTACK")))
    (hx : x = .ok a) (hbody : s.substack "SUBSTACK" n = .ok (body, m)) :
    s.compile n = s.lower (loop a) body m := by
  subst hx
  unfold Command.compile
  rw [h]
  show StateT.bind (s.substack "SUBSTACK") _ n = _
  unfold StateT.bind
  rw [hbody]
  rfl

/-- **What a loop around no label becomes**: a native loop in a procedure that runs without
    yielding, and elsewhere one that yields. -/
theorem Loops.compile (h : s.Loops n loop body m) (hnone : Stmt.anyLabel body = false) :
    s.compile n = .ok (if s.context.warp then ([loop.native body], m)
      else (loop.yielding m body, m + 1)) := by
  have hlower : s.compile n = s.lower loop body m := by
    cases h with
    | «repeat» hopcode htimes hbody =>
      refine compile_eq_lower .counted ?_ htimes hbody
      unfold compile?
      rw [hopcode]
      rfl
    | forever hopcode hbody =>
      refine compile_eq_lower (x := .ok ()) (fun _ => .endless) ?_ rfl hbody
      unfold compile?
      rw [hopcode]
      rfl
    | «while» hopcode hcond hbody =>
      refine compile_eq_lower .conditional ?_ hcond hbody
      unfold compile?
      rw [hopcode]
      rfl
    | repeatUntil hopcode hcond hbody =>
      refine compile_eq_lower (fun cond => .conditional (.not cond)) ?_ hcond hbody
      unfold compile?
      rw [hopcode]
      rfl
  have hnative : s.native body = s.context.warp := by
    rw [native, hnone, Bool.not_false, Bool.and_true]
  rw [hlower, lower, hnative]
  cases s.context.warp <;> rfl

/-- The parts of a loop block are parts of its script. -/
theorem Loops.emitted (h : s.Loops n loop body m) (hs : s.Sound fun _ => True) :
    Emitted s.context.procedures s.context.own n body m ∧
      ∀ e ∈ loop.exprs, s.context.Allows e := by
  have hinput {name : String} {slot : Slot} {e : Expr} (he : s.input name slot = .ok e) :
      s.context.Allows e := by
    have hyields := hs.input name slot
    rw [he] at hyields
    cases hyields with
    | ok h => exact h
  cases h with
  | «repeat» _ htimes hbody =>
    exact ⟨emitted_of_emits (hs.substack _) hbody, List.forall_mem_singleton.mpr (hinput htimes)⟩
  | forever _ hbody => exact ⟨emitted_of_emits (hs.substack _) hbody, nofun⟩
  | «while» _ hcond hbody =>
    exact ⟨emitted_of_emits (hs.substack _) hbody, List.forall_mem_singleton.mpr (hinput hcond)⟩
  | repeatUntil _ hcond hbody =>
    have hallows := hinput hcond
    exact ⟨emitted_of_emits (hs.substack _) hbody, List.forall_mem_singleton.mpr hallows⟩

end Compile.Command

/-! ## 2. Where a loop stands -/

namespace Script

/-- The code stands in the script, and behind it what remains of the lists around it, innermost
    first. -/
inductive Holds (code : List Stmt) : List Stmt → List (List Stmt) → Prop
  | here (rest : List Stmt) : Holds code (code ++ rest) [rest]
  | yes {cond : Expr} {yes no rest : List Stmt} {tails : List (List Stmt)}
      (h : Holds code yes tails) : Holds code (.branch cond yes no :: rest) (tails ++ [rest])
  | no {cond : Expr} {yes no rest : List Stmt} {tails : List (List Stmt)}
      (h : Holds code no tails) : Holds code (.branch cond yes no :: rest) (tails ++ [rest])
  | later {s : Stmt} {rest : List Stmt} {tails : List (List Stmt)} (h : Holds code rest tails) :
      Holds code (s :: rest) tails

variable {code script : List Stmt} {tails ts : List (List Stmt)} {l : Label}

/-- At a label of the code there is the rest of the code, and what follows it. -/
theorem Holds.remains (h : Holds code script tails) (hrem : Remains l code ts) :
    ∃ ts', Remains l script ts' ∧ ts'.flatten = ts.flatten ++ tails.flatten := by
  induction h with
  | here rest =>
    obtain ⟨ts', hts', heq⟩ := hrem.append_left rest
    exact ⟨ts', hts', by rw [heq, List.flatten_singleton]⟩
  | @yes cond yes no rest tails _ ih =>
    obtain ⟨ts', hts', heq⟩ := ih
    refine ⟨ts' ++ [rest], .yes hts', ?_⟩
    rw [List.flatten_concat, List.flatten_concat, heq, List.append_assoc]
  | @no cond yes no rest tails _ ih =>
    obtain ⟨ts', hts', heq⟩ := ih
    refine ⟨ts' ++ [rest], .no hts', ?_⟩
    rw [List.flatten_concat, List.flatten_concat, heq, List.append_assoc]
  | later _ ih =>
    obtain ⟨ts', hts', heq⟩ := ih
    exact ⟨ts', .later hts', heq⟩

/-- What the cut of a script has at the label of a loop in it: the loop once more and what
    follows. -/
theorem pruned_at_loop {loop : Compile.Loop} {body : List Stmt} {parts : List Continuation}
    {k : Continuation} (hcut : cut script = .ok parts)
    (h : Holds (loop.yielding l body) script tails) (hk : k ∈ parts) (hl : k.label = l) :
    Pruned (loop.again l body ++ tails.flatten) k.body := by
  obtain ⟨-, hnodup, rfl⟩ := cut_eq_ok.mp hcut
  obtain ⟨l', hl', rfl⟩ := List.mem_map.mp hk
  obtain rfl : l' = l := hl
  have hrem : Remains l' (loop.yielding l' body) [loop.again l' body] := by
    rw [loop.yielding_eq]
    exact (Remains.here _).append_right loop.prepare
  obtain ⟨ts, hts, heq⟩ := h.remains hrem
  obtain ⟨ts', hts', hbody⟩ := exists_remains hl'
  rw [hts'.unique hts hnodup, heq, List.flatten_singleton] at hbody
  show Pruned _ (bodyAt script l')
  rw [hbody]
  exact pruned_normal _

end Script

/-! ## 3. Calls that keep a thread from yielding -/

namespace Thread

/-- The thread counts the calls that keep it from yielding, and each call of a procedure that runs
    without yielding is one of them. -/
structure Tallied (p : Program) (t : Thread) : Prop where
  warp : t.warp = t.calls.countP (·.warp)
  called : ∀ c ∈ t.calls, ∀ q, p.procedure? c.procedure = some q → q.warp = true → c.warp = true

variable {p : Program} {t t' : Thread}

theorem Tallied.of_eq (h : Tallied p t) (hcalls : t'.calls = t.calls) (hwarp : t'.warp = t.warp) :
    Tallied p t' := by
  refine ⟨?_, ?_⟩
  · rw [hcalls, hwarp]
    exact h.warp
  · rw [hcalls]
    exact h.called

theorem Tallied.tops (h : Tallied p t) (ht : Tops t t') : Tallied p t' := by
  refine ⟨ht.warp_eq h.warp, ?_⟩
  have hcalled := h.called
  rcases ht.calls with ⟨hnil, hnil'⟩ | ⟨c, c', rest, hc, hc', hsame⟩
  · rwa [hnil', ← hnil]
  · rw [hc] at hcalled
    obtain ⟨hfirst, hrest⟩ := List.forall_mem_cons.mp hcalled
    rw [hc']
    refine List.forall_mem_cons.mpr ⟨?_, hrest⟩
    rw [hsame.procedure, hsame.warp]
    exact hfirst

/-- One more call. -/
theorem Tallied.call (h : Tallied p t) {id : ProcId} {q : Procedure}
    (hq : p.procedure? id = some q) (resume : Label) (values : List Value) :
    Tallied p (t.call id resume values (q.warp || 0 < t.warp)) := by
  refine ⟨warp_call h.warp _ _ _ _, List.forall_mem_cons.mpr ⟨fun q' hq' hw => ?_, h.called⟩⟩
  obtain rfl : q = q' := Option.some.inj (hq.symm.trans hq')
  show (q.warp || decide (0 < t.warp)) = true
  rw [hw, Bool.true_or]

theorem Tallied.endCall (h : Tallied p t) {l : Label} (he : t.endCall? = some (l, t')) :
    Tallied p t' := by
  refine ⟨warp_endCall? h.warp he, ?_⟩
  have hcalled := h.called
  obtain ⟨c, rest, hcalls, rfl, rfl⟩ := Thread.exists_of_endCall? he
  rw [hcalls] at hcalled
  exact (List.forall_mem_cons.mp hcalled).2

theorem Tallied.departs (h : Tallied p t) {s : Stmt} {l : Label} (hd : Act.Departs p s t l t') :
    Tallied p t' := by
  cases hd with
  | queue | forceQueue => exact h
  | endCall he => exact h.endCall he
  | call hq hk => exact (h.tops hk.tops).call hq _ _

end Thread

/-- **Threads count the calls that keep them from yielding.** -/
def Discipline.tallying (R : Rules) : Discipline R where
  program _ := True
  thread := Thread.Tallied
  start _ _ _ _ := ⟨rfl, nofun⟩
  ready h _ := h.of_eq rfl rfl
  working p t _ _ := t.Tallied p
  enter _ h _ := h
  onward _ h ho := h.tops ho.tops
  jump _ h hd _ := h.departs hd
  yield _ h hd := (h.departs hd).of_eq rfl rfl

/-! ## 4. Native loops in a run -/

/-- The thread counts the calls that keep it from yielding, and waits for no request. -/
structure Thread.Coherent (t : Thread) : Prop where
  warp : t.warp = t.calls.countP (·.warp)
  ticket : t.registers.ticket = none

theorem Thread.Coherent.calls {t : Thread} (h : t.Coherent) (hwarp : 0 < t.warp) :
    t.calls ≠ [] := by
  intro hnil
  have hcount := h.warp
  rw [hnil, List.countP_nil] at hcount
  omega

/-- A native loop stands only where no request is waited for, also behind labels that are passed
    before it. -/
theorem Script.ticket_of_loop {held : Label → Condition} {post : Condition} {loop : Compile.Loop}
    {body rest code : List Stmt} {rs : Registers} {saved : List Registers}
    (hp : Pruned code (loop.native body :: rest)) (h : before held code post rs saved) :
    rs.ticket = none := by
  generalize hcode : loop.native body :: rest = code' at hp
  induction hp with
  | nil => cases hcode
  | label k _ ih => exact ih (h.2 rs rfl) hcode
  | same s =>
    cases hcode
    refine h.1 ?_
    cases loop <;> rfl
  | branch => cases loop <;> cases hcode
  | last hs =>
    cases hcode
    cases loop <;> cases hs

open Compile (Belongs Fitting Assembled) in
/-- In a procedure that runs without yielding the thread does not yield. -/
theorem Compile.warp_of_fitting {data : TargetData} {ss : List Labelled} {p : Program}
    (hp : Assembled data ss p) {base l : Label} {t : Thread} {loop : Loop} {body rest : List Stmt}
    (h : Belongs ss p.procedures base t.calls l)
    (hfits : Fitting ss p.procedures l (loop.native body :: rest)) (ht : t.Tallied p) :
    0 < t.warp := by
  obtain ⟨s, hs, hl, hfits⟩ := hfits
  have hself := hfits _ (Script.mem_nodes_cons.mpr (.inl (Script.mem_nodesOf_self _)))
  obtain ⟨q, hown, hq⟩ : ∃ q, s.trigger.own p.procedures = some q ∧ q.warp = true := by
    cases loop <;> exact hself.2
  cases hcalls : t.calls with
  | nil => exact absurd hcalls (h.own hp.scripts hs hl (hown ▸ rfl))
  | cons c calls =>
    rw [hcalls] at h
    obtain ⟨⟨s', hs', htrigger, hl'⟩, -⟩ := h
    rw [script_unique hp.scripts hs hs' hl hl'] at htrigger
    rw [htrigger] at hown
    have hc : c.warp = true := ht.called c (hcalls ▸ List.mem_cons_self) q hown hq
    rw [ht.warp, hcalls, List.countP_cons, hc]
    exact Nat.succ_pos _

namespace World

variable {H : Type} [Host H]

/-- **A native loop is only ever executed by a thread that does not yield.** -/
theorem coherent_of_native {p : Project} {o : Options} {host : H} {s : Surroundings}
    {m : Machine H} (h : Player.loadProject p o host s = .ok m) {t : Turn H} {l : Label}
    {loop : Compile.Loop} {body rest : List Stmt} {length : Nat} {seats : List Nat}
    (hw : Arises m (.turn t l (loop.native body :: rest) length seats)) :
    0 < t.thread.warp ∧ t.thread.Coherent := by
  obtain ⟨source, hsource⟩ := p.exists_sourced
  have hstems (q : Program) (hq : p.Compiles q) : q.Stems source := hsource.stems hq
  have hstart : World.Sound (.belonging (Program.Stems source)) (.rest m) :=
    World.sound_load h hstems
  have htally : World.Sound (.tallying .cut) (.rest m) := World.sound_load h fun _ _ => trivial
  obtain ⟨⟨hm, -⟩, ⟨hseated, -⟩, hworking⟩ := Reaches.sound hw hstart
  obtain ⟨-, -, htallied⟩ := Reaches.sound hw htally
  obtain ⟨data, hassembled⟩ := program_of_seated hm hseated
  obtain ⟨hbelongs, hfitting⟩ := hworking data _ hassembled
  refine ⟨Compile.warp_of_fitting hassembled hbelongs hfitting htallied, htallied.warp, ?_⟩
  -- in the scripts, before they are cut, no request is waited for at the loop
  obtain ⟨w₀, hw₀, hu⟩ := World.Reaches.uncut hw hstart (.rest m)
  have hfree : w₀.Sound (.freeing source) := Reaches.sound hw₀ (World.sound_load h hstems)
  obtain ⟨held, hheld⟩ := Compile.exists_annotation hassembled.scripts
  cases hu with
  | turn _ _ hpruned =>
    obtain ⟨-, -, -, hbefore⟩ := hfree
    exact Script.ticket_of_loop hpruned (hbefore held hheld).1

/-- **Wherever a thread comes to a block it is coherent.** -/
theorem coherent_of_block {p : Project} {o : Options} {host : H} {s : Surroundings}
    {m : Machine H} (h : Player.loadProject p o host s = .ok m)
    {source : Program → List Compile.Labelled} (hsource : p.Sourced source)
    {data : TargetData} {stage : Option TargetData} {c : Compile.Context}
    (hc : Compile.Setting data stage c) {code : List Stmt} (hcode : Compile.Becomes c code)
    (hne : code ≠ []) {t : Turn H} {l : Label} {rest : List Stmt} {length : Nat} {seats : List Nat}
    (hw : Reaches (.whole source) (.rest m) (.turn t l (code ++ rest) length seats)) :
    t.thread.Coherent := by
  have hstems (q : Program) (hq : p.Compiles q) : q.Stems source := hsource.stems hq
  have hstart : World.Sound (.freeing source) (.rest m) := World.sound_load h hstems
  have htally : World.Sound (.tallying (.whole source)) (.rest m) :=
    World.sound_load h fun _ _ => trivial
  obtain ⟨⟨hm, -⟩, ⟨hseated, -⟩, -, hbefore⟩ := Reaches.sound hw hstart
  obtain ⟨-, -, htallied⟩ := Reaches.sound hw htally
  obtain ⟨data', hassembled⟩ := program_of_seated hm hseated
  obtain ⟨held, hheld⟩ := Compile.exists_annotation hassembled.scripts
  obtain ⟨n, n', hemitted⟩ := hcode.emitted hc
  exact ⟨htallied.warp, hemitted.ticket hne (hbefore held hheld).1⟩

end World

/-! ## 5. Native loops agree with loops that yield -/

open Compile in
/-- **Native loops agree with loops that yield.**

    A block that is a loop around no label becomes a native loop in a procedure that runs without
    yielding, and a loop that yields elsewhere. Let a script hold the loop that yields, and be cut,
    and let a thread that does not yield, inside of a call, find the continuation at the label of
    the loop; if the loop is counted, let it wait for no request. Then it comes to the same with the
    native loop and what follows it in the script as with the loop that yields: both diverge, or
    both end alike, in the same state of the machine, and of the thread too unless it is over.

    In every run of a compiled project a native loop is only executed by such a thread. Also, where
    the scripts are read before they are cut, a thread that comes to a block is coherent, whether it
    yields or not. -/
theorem World.native_loops_agree {H : Type} [Host H] :
    (∀ data stage c, Setting data stage c → ∀ depth path b n m loop body,
      (commandAt c depth path b).Loops n loop body m → Stmt.anyLabel body = false →
      (commandAt c depth path b).compile n =
        .ok (if c.warp then ([loop.native body], m) else (loop.yielding m body, m + 1)) ∧
      ∀ l script parts tails, Script.cut script = .ok parts →
      Script.Holds (loop.yielding l body) script tails →
      ∀ t : Turn H, 0 < t.thread.warp → t.thread.calls ≠ [] →
      (∀ times, loop = .counted times → t.thread.registers.ticket = none) →
      (∃ k ∈ parts, k.label = l ∧ t.program.continuation? l = some k) →
      ∀ code code', Script.Pruned (loop.native body :: tails.flatten) code →
        Script.Pruned (loop.yielding l body ++ tails.flatten) code' →
        (Act.Diverges (Act.follow · code) t ↔ Act.Diverges (Act.follow · code') t) ∧
        ∀ r r', Act.Comes (Act.follow · code) t r → Act.Comes (Act.follow · code') t r' →
          Act.Alike r r') ∧
    ∀ (p : Project) (o : Options) (host : H) (s : Surroundings) (m : Machine H),
      Player.loadProject p o host s = .ok m →
      (∀ t l loop body rest length seats,
        World.Arises m (.turn t l (Loop.native body loop :: rest) length seats) →
        0 < t.thread.warp ∧ t.thread.Coherent) ∧
      ∀ source, p.Sourced source → ∀ data stage c code, Setting data stage c → Becomes c code →
        code ≠ [] → ∀ t l rest length seats,
        World.Reaches (.whole source) (.rest m) (.turn t l (code ++ rest) length seats) →
        t.thread.Coherent := by
  constructor
  · intro data stage c hc depth path b n m loop body hloops hnone
    refine ⟨hloops.compile hnone, ?_⟩
    intro l script parts tails hcut hholds t hwarp hcalls hwaits hfound code code' hcode hcode'
    obtain ⟨hbody, hexprs⟩ :=
      hloops.emitted (sound_commandAt hc.proper b (emits_anywhere hc.proper depth path))
    obtain ⟨k, hk, hlabel, hthere⟩ := hfound
    have ht : Act.Unyielding l (loop.again l body ++ tails.flatten) t :=
      ⟨hwarp, hcalls, k, hthere, Script.pruned_at_loop hcut hholds hk hlabel⟩
    have hagree := Act.agree_of_loops (hbody.calm hnone) (fun e he => (hexprs e he).frees) ht
      hwaits hcode hcode'
    exact hagree.comes fun _ _ h => h.finished
  · intro p o host s m h
    refine ⟨fun t l loop body rest length seats hw => World.coherent_of_native h hw, ?_⟩
    intro source hsource data stage c code hc hcode hne t l rest length seats hw
    exact World.coherent_of_block h hsource hc hcode hne hw

/-- The block that repeats what the sprite says. -/
def windingRepeat : Block where
  opcode := "control_repeat"
  inputs := ⟨[("SUBSTACK", .block "w3"), ("TIMES", .block "w2")], by decide⟩

/-- A sprite with a procedure that runs without yielding and has a loop. A loose block plays a sound
    that the sprite does not have. -/
def winding : TargetData where
  name := "Winding"
  blocks := ⟨[
    ("v0", .block { opcode := "event_whenflagclicked", next := some "v1", topLevel := true }),
    ("v1", .block { opcode := "procedures_call", mutation := some { proccode := some "wind" } }),
    ("w0", .block {
      opcode := "procedures_definition", next := some "w1", topLevel := true
      inputs := ⟨[("custom_block", .block "w4")], List.pairwise_singleton _ _⟩ }),
    ("w1", .block windingRepeat),
    ("w2", .block {
      opcode := "operator_length"
      inputs := ⟨[("STRING", .literal (.text "abc"))], List.pairwise_singleton _ _⟩ }),
    ("w3", .block {
      opcode := "looks_say"
      inputs := ⟨[("MESSAGE", .literal (.text "turn"))], List.pairwise_singleton _ _⟩ }),
    ("w4", .block {
      opcode := "procedures_prototype"
      mutation := some { proccode := some "wind", warp := some (.string "true") } }),
    ("w5", .block {
      opcode := "sound_play"
      inputs := ⟨[("SOUND_MENU", .literal (.text "hum"))], List.pairwise_singleton _ _⟩ })],
    by decide⟩

/-- The sprite on a stage. -/
def windingProject : Project := ⟨[{ isStage := true, name := "Stage" }, winding]⟩

open Compile in
/-- What is known inside of the procedure. -/
def windingContext : Context :=
  (Context.of winding none (procedures winding)).enter 0 ⟨"wind", 0, true, []⟩

theorem setting_winding : Compile.Setting winding none windingContext := .procedure rfl

/-- The loop in the procedure. -/
def windingLoop : Compile.Loop := .counted (.cast .number (.length (.const (.text "abc"))))

/-- The body of the loop. -/
def windingBody : List Stmt := [.looks (.say (.const (.text "turn")) false)]

/-- The script of the procedure with the loop that yields. -/
def windingScript : List Stmt :=
  .label 0 :: windingLoop.yielding 3 windingBody ++ [.endCall, .return]

/-- The scripts of each program of the project. -/
def windingSource (q : Program) : List Compile.Labelled :=
  if q.procedures.isEmpty then []
  else
    [⟨.event .flag, 1, [.label 1, .call 0 [] 2, .label 2, .return]⟩,
      ⟨.procedure 0, 0, [.label 0, windingLoop.native windingBody, .endCall, .return]⟩]

theorem sourced_winding : windingProject.Sourced windingSource := by
  rintro q ⟨data, hdata, hcompile⟩
  refine ⟨data, hdata, hcompile, ?_⟩
  obtain ⟨ss, count, -, hassembled⟩ := Compile.assembled_of_compile hcompile
  unfold windingSource
  rw [hassembled.procedures]
  rcases List.mem_cons.mp hdata with rfl | hdata
  · exact ⟨0, rfl⟩
  · obtain rfl := List.mem_singleton.mp hdata
    exact ⟨3, rfl⟩

/-- A run comes to the native loop. -/
def World.Winds {H : Type} [Host H] (R : Rules) (m : Machine H) (t : Turn H) : Prop :=
  ∃ l rest length seats,
    World.Reaches R (.rest m) (.turn t l (windingLoop.native windingBody :: rest) length seats)

/-- Whether the thread is at the native loop. -/
def World.isWinding {H : Type} : World H → Bool
  | .turn _ _ (.repeat (.cast .number (.length (.const (.text text))))
      [.looks (.say (.const (.text message)) false)] :: _) _ _ => text == "abc" && message == "turn"
  | _ => false

/-- The first turn after the green flag that comes to the native loop. -/
def Machine.atLoop? {H : Type} [Host H] {R : Rules} (f : Finder R) (m : Machine H) :
    Option (Turn H) :=
  ((World.rest m.greenFlag.2).seek? f World.isWinding 9).bind World.turn?

theorem Machine.winds_of_atLoop? {H : Type} [Host H] {R : Rules} {f : Finder R} {m : Machine H}
    {t : Turn H} (h : m.atLoop? f = some t) : World.Winds R m t := by
  obtain ⟨w, hseek, ht⟩ := Option.bind_eq_some_iff.mp h
  obtain ⟨hreaches, hwinding⟩ := World.reaches_seek? hseek
  unfold World.isWinding at hwinding
  split at hwinding
  · obtain ⟨htext, hmessage⟩ := Bool.and_eq_true_iff.mp hwinding
    rw [beq_iff_eq.mp htext, beq_iff_eq.mp hmessage] at hreaches
    cases ht
    exact ⟨_, _, _, _, .head (.greenFlag m) hreaches⟩
  · cases hwinding

/-- The turn with the loop that yields in its program, behind the other scripts. -/
def Turn.wound {H : Type} (t : Turn H) : Turn H :=
  { t with program := { t.program with
      continuations := t.program.continuations ++ [⟨3, Script.bodyAt windingScript 3⟩] } }

/-- What is seen of the turn at its end, after so many steps. -/
def Act.seen? {α : Type} (see : Outcome → Turn Headless → α) (steps : Nat) (code : List Stmt)
    (t : Turn Headless) : Option α :=
  match Act.follow steps code t with
  | .ok o t' => some (see o t')
  | .error .. => none

theorem Act.comes_of_seen? {α : Type} {see : Outcome → Turn Headless → α} {steps : Nat}
    {code : List Stmt} {t : Turn Headless} {a : α} (h : Act.seen? see steps code t = some a) :
    ∃ o t', Act.Comes (Act.follow · code) t (.ok o t') ∧ see o t' = a := by
  unfold seen? at h
  split at h
  · rename_i o t' hact
    refine ⟨o, t', ⟨fun _ herror => ?_, steps, hact⟩, Option.some.inj h⟩
    cases herror
  · cases h

open Compile in
/-- The sprite speaks three times in its loop, native or not. -/
theorem World.winding_agrees :
    ∃ m : Machine Headless, ∃ t u,
      Player.loadProject windingProject {} {} .still = .ok m ∧
      windingProject.Sourced windingSource ∧
      World.Winds .cut m t ∧ t.thread.Coherent ∧ 0 < t.thread.warp ∧
      World.Winds (.whole windingSource) m u ∧ u.thread.Coherent ∧
      ∃ o t' r,
        Act.Comes (Act.follow · [windingLoop.native windingBody, .endCall, .return]) t.wound
          (.ok o t') ∧
        Act.Comes (Act.follow · (windingLoop.yielding 3 windingBody ++ [.endCall, .return])) t.wound
          r ∧
        t'.machine.host.speech.size = 3 ∧ Act.Alike (.ok o t') r := by
  have hrun : ((Player.loadProject windingProject {} ({} : Headless)
      .still).toOption.bind fun m => (m.atLoop? .cut).bind fun t =>
        (m.atLoop? (.whole windingSource)).map fun u => (m, t, u)).map
        (fun s => (s.2.1.program.continuations.length,
          Act.seen? (fun _ t => t.machine.host.speech.size) 9
            [windingLoop.native windingBody, .endCall, .return] s.2.1.wound)) =
        some (3, some 3) := by
    decide +kernel
  obtain ⟨⟨m, t, u⟩, hwinding, hends⟩ := Option.map_eq_some_iff.mp hrun
  obtain ⟨hlength, hspoken⟩ := Prod.mk.inj hends
  obtain ⟨m', hm, hwinding⟩ := Option.bind_eq_some_iff.mp hwinding
  obtain ⟨t', ht, hwinding⟩ := Option.bind_eq_some_iff.mp hwinding
  obtain ⟨u', hu, heq⟩ := Option.map_eq_some_iff.mp hwinding
  cases heq
  have hload := eq_ok_of_toOption hm
  have hwinds := Machine.winds_of_atLoop? ht
  have hwinds' := Machine.winds_of_atLoop? hu
  obtain ⟨hblocks, hruns⟩ := World.native_loops_agree (H := Headless)
  obtain ⟨hnative, hwhole⟩ := hruns _ _ _ _ m hload
  obtain ⟨hwarp, hcoherent⟩ : 0 < t.thread.warp ∧ t.thread.Coherent := by
    obtain ⟨l, rest, length, seats, hw⟩ := hwinds
    exact hnative t l _ _ rest length seats hw
  -- what the block became in the procedure
  have hloops : (commandAt windingContext 3 [] windingRepeat).Loops 3 windingLoop windingBody 3 :=
    .repeat rfl rfl rfl
  obtain ⟨hcompile, hagree⟩ := hblocks winding none _ setting_winding 3 [] windingRepeat 3 3
    windingLoop windingBody hloops rfl
  have hcoherent' : u.thread.Coherent := by
    obtain ⟨l, rest, length, seats, hw⟩ := hwinds'
    exact hwhole windingSource sourced_winding winding none _ [windingLoop.native windingBody]
      setting_winding (.block hcompile) (List.cons_ne_nil _ _) u l rest length seats hw
  have hfound : t.wound.program.continuation? 3 = some ⟨3, Script.bodyAt windingScript 3⟩ := by
    show (t.program.continuations ++ _)[3]? = _
    rw [← hlength]
    exact List.getElem?_concat_length
  obtain ⟨hdiverges, hends⟩ := hagree 3 windingScript _ [[.endCall, .return]] rfl
    (.later (.here _)) t.wound hwarp (hcoherent.calls hwarp) (fun _ _ => hcoherent.ticket)
    ⟨_, List.mem_cons_of_mem _ List.mem_cons_self, rfl, hfound⟩ _ _ (.refl _) (.refl _)
  obtain ⟨o, t', hcomes, hthree⟩ := Act.comes_of_seen? hspoken
  have hended : ¬ Act.Diverges (Act.follow · (windingLoop.yielding 3 windingBody ++
      [.endCall, .return])) t.wound := by
    intro h
    exact Act.diverges_iff.mp (hdiverges.mpr h) _ hcomes
  rw [Act.diverges_iff] at hended
  push Not at hended
  obtain ⟨r, hr⟩ := hended
  exact ⟨m, t, u, hload, sourced_winding, hwinds, hcoherent, hwarp, hwinds', hcoherent', o, t', r,
    hcomes, hr, hthree, hends _ _ hcomes hr⟩

/-- The block that repeats the sound. -/
def hummingRepeat : Block where
  opcode := "control_repeat"
  inputs := ⟨[("SUBSTACK", .block "w5"), ("TIMES", .block "w2")], by decide⟩

/-- The body of the loop. -/
def hummingBody : List Stmt := [.sound (.play (.const (.text "hum")))]

/-- A script with the loop that yields, after which the thread waits for its next turn. -/
def hummingScript : List Stmt :=
  .label 0 :: windingLoop.yielding 3 hummingBody ++ [.forceQueue 0]

/-- A thread in the procedure that waits for a request. -/
def hummingTurn : Turn Headless where
  machine := .still [.ofData 0 winding {}] {}
  thread := { (Thread.start 0 0 0).call 0 2 [] true with registers := { ticket := some 0 } }
  seat := 0
  program :=
    { continuations := (List.range 4).map fun l => ⟨l, Script.bodyAt hummingScript l⟩ }

open Compile in
/-- **A request that is waited for before a counted loop.** A sound that is not there makes the
    thread wait no more; the loop that yields brings the request back with the registers, and the
    native loop does not. -/
theorem World.humming_disagrees :
    ∃ parts, Setting winding none windingContext ∧
      (commandAt windingContext 3 [] hummingRepeat).Loops 3 windingLoop hummingBody 3 ∧
      Stmt.anyLabel hummingBody = false ∧ Script.cut hummingScript = .ok parts ∧
      Script.Holds (windingLoop.yielding 3 hummingBody) hummingScript [[.forceQueue 0]] ∧
      0 < hummingTurn.thread.warp ∧ hummingTurn.thread.calls ≠ [] ∧
      hummingTurn.thread.registers.ticket = some 0 ∧
      (∃ k ∈ parts, k.label = 3 ∧ hummingTurn.program.continuation? 3 = some k) ∧
      ∃ r r',
        Act.Comes (Act.follow · [windingLoop.native hummingBody, .forceQueue 0]) hummingTurn r ∧
        Act.Comes (Act.follow · (windingLoop.yielding 3 hummingBody ++ [.forceQueue 0])) hummingTurn
          r' ∧
        ¬ Act.Alike r r' := by
  have hnative : Act.seen? (fun _ t => t.thread.registers.ticket) 9
      [windingLoop.native hummingBody, .forceQueue 0] hummingTurn = some none := by
    decide +kernel
  have hyielding : Act.seen? (fun o t => (o, t.thread.registers.ticket)) 9
      (windingLoop.yielding 3 hummingBody ++ [.forceQueue 0]) hummingTurn =
        some (.yielded, some 0) := by
    decide +kernel
  obtain ⟨o, t, hcomes, hticket⟩ := Act.comes_of_seen? hnative
  obtain ⟨o', t', hcomes', hend⟩ := Act.comes_of_seen? hyielding
  obtain ⟨rfl, hticket'⟩ := Prod.mk.inj hend
  refine ⟨_, setting_winding, .repeat rfl rfl rfl, rfl, rfl, .later (.here _), Nat.one_pos,
    List.cons_ne_nil _ _, rfl, ⟨_, List.mem_cons_of_mem _ List.mem_cons_self, rfl, rfl⟩, _, _,
    hcomes, hcomes', fun h => ?_⟩
  cases h with
  | yielded => cases hticket.symm.trans hticket'
  | ended ho => exact ho rfl

end BlockScript
