import BlockScript.Proofs.Uncut

/-!
# What follows a statement

Some blocks become several statements that belong together: what such a block begins with is
followed, in every compiled script, by the rest of it. This is said of scripts before they are cut,
where each label still stands in its place, and from there it is known of the statements that a
thread has at hand.

* `Script.Followed`: everywhere in a script a statement is followed as a condition asks;
* `Script.Convention`: a condition that the pieces of compiled scripts meet, so that the scripts do
  (`Script.Convention.emitted`);
* `World.Arises.uncut`: in every state that a project comes to, a thread has a script at hand that
  meets the condition.
-/

namespace BlockScript

open Compile (Labelled Loop Asks)

/-- Whether the statement is the first one of a wait, for threads or for some time. -/
def Stmt.begins : Stmt → Bool
  | .broadcast _ wait | .switchBackdrop _ wait => wait
  | .setRegister .start _ => true
  | _ => false

namespace Script

/-! ## 1. Conditions on what follows -/

mutual

/-- So it is in each list of the statement. -/
def FollowedAt (P : Stmt → List Stmt → Prop) : Stmt → Prop
  | .branch _ yes no => Followed P yes ∧ Followed P no
  | .repeat _ body | .while _ body | .forever body => Followed P body
  | _ => True

/-- Each statement is followed as the condition asks. -/
def Followed (P : Stmt → List Stmt → Prop) : List Stmt → Prop
  | [] => True
  | s :: rest => (FollowedAt P s ∧ P s rest) ∧ Followed P rest

end

/-- A condition that concerns only what comes right behind a statement, and that the pieces of
    compiled scripts meet which begin something. -/
structure Convention (P : Stmt → List Stmt → Prop) : Prop where
  grows : ∀ {s : Stmt} {a : List Stmt} (b : List Stmt), P s a → P s (a ++ b)
  free : ∀ {s : Stmt}, s.begins = false → P s []
  timedWait : ∀ l duration, Followed P (Compile.timedWait l duration)
  glide : ∀ l secs x y, Followed P (Compile.glide l secs x y)
  request : ∀ l {ask pending after}, Asks ask pending after →
    Followed P (Compile.request l ask pending after)

variable {P : Stmt → List Stmt → Prop} {a b rest code : List Stmt} {s : Stmt} {l : Label}

theorem followedAt_of_isLeaf (h : s.isLeaf = true) : FollowedAt P s := by
  cases s with
  | branch | «repeat» | «while» | forever => cases h
  | _ => trivial

/-! The pieces of compiled scripts that begin something, where nothing else is asked. -/

section Pieces

variable (hfree : ∀ {s : Stmt} {rest : List Stmt}, s.begins = false → P s rest)

include hfree

/-- A statement that begins nothing. -/
theorem followed_cons (hs : FollowedAt P s) (hbegins : s.begins = false) (hrest : Followed P rest) :
    Followed P (s :: rest) :=
  ⟨⟨hs, hfree hbegins⟩, hrest⟩

theorem followed_poll (l : Label) (pending : Expr) (hrest : Followed P rest) :
    Followed P (Compile.poll l pending ++ rest) := by
  have hforce : Followed P [.forceQueue l] := followed_cons hfree trivial rfl trivial
  exact followed_cons hfree trivial rfl (followed_cons hfree ⟨hforce, trivial⟩ rfl hrest)

theorem followed_timedWait (l : Label) (duration : Expr)
    (h : P (.setRegister .start .now) ((Compile.timedWait l duration).drop 2)) :
    Followed P (Compile.timedWait l duration) := by
  have hcons {s : Stmt} {rest : List Stmt} := @followed_cons P rest s hfree
  have hagain : Followed P [.setRegister .first Compile.zero, .forceQueue l] :=
    hcons trivial rfl (hcons trivial rfl trivial)
  refine hcons trivial rfl ⟨⟨trivial, h⟩, hcons trivial rfl (hcons trivial rfl ?_)⟩
  exact hcons trivial rfl (hcons ⟨hagain, trivial⟩ rfl (hcons trivial rfl trivial))

theorem followed_glide (l : Label) (secs x y : Expr)
    (h : P (.setRegister .start .now) ((Compile.glide l secs x y).drop 2)) :
    Followed P (Compile.glide l secs x y) := by
  have hcons {s : Stmt} {rest : List Stmt} := @followed_cons P rest s hfree
  have hagain : Followed P [.forceQueue l] := hcons trivial rfl trivial
  refine hcons trivial rfl ⟨⟨trivial, h⟩, hcons trivial rfl (hcons trivial rfl ?_)⟩
  refine hcons trivial rfl (hcons trivial rfl (hcons trivial rfl (hcons trivial rfl ?_)))
  exact hcons trivial rfl (hcons ⟨hagain, trivial⟩ rfl (hcons trivial rfl trivial))

theorem followed_request (l : Label) {ask : Stmt} {pending : Expr} {after : List Stmt}
    (hasks : Asks ask pending after)
    (h : P ask (Compile.poll l pending ++ after ++ [.restore])) :
    Followed P (Compile.request l ask pending after) := by
  have hcons {s : Stmt} {rest : List Stmt} := @followed_cons P rest s hfree
  have hend : Followed P [.restore] := hcons trivial rfl trivial
  have hafter : FollowedAt P ask ∧ Followed P (after ++ [.restore]) := by
    cases hasks with
    | broadcast | switchBackdrop | sound => exact ⟨trivial, hend⟩
    | question => exact ⟨trivial, hcons trivial rfl hend⟩
  have hpoll := followed_poll hfree l pending hafter.2
  rw [← List.append_assoc] at hpoll
  exact hcons trivial rfl ⟨⟨hafter.1, h⟩, hpoll⟩

end Pieces

namespace Convention

variable (hP : Convention P)

include hP

theorem append (ha : Followed P a) (hb : Followed P b) : Followed P (a ++ b) := by
  induction a with
  | nil => exact hb
  | cons s rest ih => exact ⟨⟨ha.1.1, hP.grows b ha.1.2⟩, ih ha.2⟩

/-- A statement that begins nothing. -/
theorem cons (hs : FollowedAt P s) (hfree : s.begins = false) (hrest : Followed P rest) :
    Followed P (s :: rest) :=
  followed_cons (fun h => hP.grows _ (hP.free h)) hs hfree hrest

/-- Statements that hold no others, none of which begins anything. -/
theorem leaves (h : ∀ s ∈ code, s.isLeaf = true ∧ s.begins = false) : Followed P code := by
  induction code with
  | nil => trivial
  | cons s rest ih =>
    obtain ⟨hs, hrest⟩ := List.forall_mem_cons.mp h
    exact hP.cons (followedAt_of_isLeaf hs.1) hs.2 (ih hrest)

/-- What remains of a script is as the script. -/
theorem remains {script : List Stmt} {tails : List (List Stmt)} (h : Remains l script tails)
    (hscript : Followed P script) : Followed P tails.flatten := by
  induction h with
  | here rest =>
    rw [List.flatten_singleton]
    exact hscript.2
  | yes _ ih =>
    rw [List.flatten_concat]
    exact hP.append (ih hscript.1.1.1) hscript.2
  | no _ ih =>
    rw [List.flatten_concat]
    exact hP.append (ih hscript.1.1.2) hscript.2
  | later _ ih => exact ih hscript.2

/-- What a thread goes on with is as what it had at hand. -/
theorem onward {t t' : Thread} (h : Followed P (s :: rest)) (ho : Act.Onward s t code t') :
    Followed P (code ++ rest) := by
  obtain ⟨⟨hs, -⟩, hrest⟩ := h
  refine hP.append ?_ hrest
  cases ho with
  | save | restore | endCall | done => trivial
  | yes => exact hs.1
  | no => exact hs.2
  | «repeat» => exact hP.append hs (hP.cons hs rfl trivial)
  | «while» => exact hP.append hs (hP.cons hs rfl trivial)
  | forever => exact hP.append hs (hP.cons hs rfl trivial)

/-! ## 2. Compiled scripts -/

/-- A loop is as its body. -/
theorem yielding (loop : Loop) {body : List Stmt} (h : Followed P body) (l : Label) :
    Followed P (loop.yielding l body) := by
  have hbody : Followed P (body ++ [.queue l]) := hP.append h (hP.cons trivial rfl trivial)
  cases loop with
  | counted times =>
    refine hP.cons trivial rfl (hP.cons trivial rfl (hP.cons trivial rfl ?_))
    exact hP.cons ⟨hP.cons trivial rfl hbody, hP.cons trivial rfl trivial⟩ rfl trivial
  | endless => exact hP.cons trivial rfl hbody
  | conditional cond => exact hP.cons trivial rfl (hP.cons ⟨hbody, trivial⟩ rfl trivial)

/-- **Compiled scripts keep to a convention** that their pieces keep to. -/
theorem emitted {procedures : List Procedure} {own : Option Procedure} {n n' : Nat}
    (h : Emitted procedures own n code n') : Followed P code := by
  induction h with
  | nil => trivial
  | append _ _ ha hb => exact hP.append ha hb
  | @light n s hs _ =>
    refine hP.leaves fun s' hs' => ?_
    rw [List.mem_singleton.mp hs']
    cases s with
    | broadcast _ wait | switchBackdrop _ wait =>
      cases wait with
      | true => cases hs
      | false => exact ⟨rfl, rfl⟩
    | branch | «repeat» | «while» | forever | setRegister => cases hs
    | _ => exact ⟨rfl, rfl⟩
  | «return» => exact hP.cons trivial rfl trivial
  | endCall => exact hP.cons trivial rfl trivial
  | branch _ _ _ hyes hno => exact hP.cons ⟨hyes, hno⟩ rfl trivial
  | native loop _ _ _ _ hbody =>
    cases loop with
    | counted | endless | conditional => exact hP.cons hbody rfl trivial
  | yielding loop _ _ hbody => exact hP.yielding loop hbody _
  | timedWait => exact hP.timedWait _ _
  | glide => exact hP.glide _ _ _ _
  | poll => exact @followed_poll P [] (fun h => hP.grows _ (hP.free h)) _ _ trivial
  | request hask => exact hP.request _ hask
  | call => exact hP.leaves (by simp [Stmt.isLeaf, Stmt.begins])

end Convention

/-- Nothing is pruned among statements that write registers. -/
theorem Pruned.after {opening : List Stmt} (ho : ∀ s ∈ opening, ∃ r e, s = .setRegister r e)
    (h : Pruned (opening ++ a) b) : ∃ b', b = opening ++ b' ∧ Pruned a b' := by
  induction opening generalizing b with
  | nil => exact ⟨b, rfl, h⟩
  | cons s rest ih =>
    obtain ⟨⟨r, e, rfl⟩, hrest⟩ := List.forall_mem_cons.mp ho
    cases h with
    | same _ h =>
      obtain ⟨b', rfl, hpruned⟩ := ih hrest h
      exact ⟨b', rfl, hpruned⟩
    | last hterm => cases hterm

end Script

/-! ## 3. What a thread has at hand -/

variable {P : Stmt → List Stmt → Prop} {source : Program → List Labelled} {q : Program}

/-- What a thread finds in a compiled script. -/
theorem Program.Stems.followed (hP : Script.Convention P) (h : q.Stems source) {l : Label}
    {code : List Stmt} (hc : (Rules.whole source).finds q l code) : Script.Followed P code := by
  obtain ⟨data, hassembled⟩ := h
  obtain ⟨s, hs, tails, hrem, rfl⟩ := hc
  obtain ⟨n, body, n', hbody, hemitted, -⟩ := (hassembled.scripts.whole s hs).emitted
  refine hP.remains hrem ?_
  rw [hbody]
  exact hP.cons trivial rfl (hP.emitted hemitted)

/-- The statements at hand keep to a convention, and each label among them stands before what a
    thread finds at it. -/
def Discipline.following (source : Program → List Labelled) (hP : Script.Convention P) :
    Discipline (.whole source) where
  program := Program.Stems source
  thread _ _ := True
  start _ _ _ _ := trivial
  ready _ _ := trivial
  working p _ _ code := Script.Placed (.whole source) p code ∧ Script.Followed P code
  enter hp _ hc := ⟨Script.placed_whole hp hc, hp.followed hP hc⟩
  onward _ h ho := ⟨h.1.onward ho, hP.onward h.2 ho⟩
  jump hp _ _ hc := ⟨Script.placed_whole hp hc, hp.followed hP hc⟩
  yield _ _ _ := trivial

namespace World

variable {H : Type} [Host H] {p : Project} {o : Options} {host : H} {s : Surroundings}
  {m : Machine H}

/-- **In every state of a compiled project the thread at work has a script at hand that keeps to a
    convention**, cut or not. -/
theorem Arises.uncut (hP : Script.Convention P) (hload : Player.loadProject p o host s = .ok m)
    {t : Turn H} {l : Label} {code : List Stmt} {length : Nat} {seats : List Nat}
    (h : Arises m (.turn t l code length seats)) :
    ∃ source code₀, t.program.Stems source ∧ Script.Placed (.whole source) t.program code₀ ∧
      Script.Followed P code₀ ∧ Script.Pruned code₀ code := by
  obtain ⟨source, hsource⟩ := p.exists_sourced
  have hstems (q : Program) (hq : p.Compiles q) : q.Stems source := hsource.stems hq
  have hcut : World.Sound (.belonging (Program.Stems source)) (.rest m) :=
    World.sound_load hload hstems
  obtain ⟨w₀, hreaches, hu⟩ := Reaches.uncut h hcut (.rest m)
  have hsound : w₀.Sound (.following source hP) :=
    Reaches.sound hreaches (World.sound_load hload hstems)
  cases hu with
  | turn _ _ hpruned =>
    obtain ⟨⟨hm, -⟩, ⟨hseated, -⟩, hplaced, hfollowed⟩ := hsound
    exact ⟨source, _, program_of_seated hm hseated, hplaced, hfollowed, hpruned⟩

end World

end BlockScript
