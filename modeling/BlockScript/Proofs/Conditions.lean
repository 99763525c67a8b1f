import BlockScript.Proofs.Uncut

/-!
# What statements need of registers

Statements that a block became leave the registers and the copies of them as they were: whatever
they write they have saved before. This is shown as for programs with assertions. For a condition
that is to hold behind some statements, another one is computed that must hold before them, given
the conditions at the labels.

* `Condition`: something said of the registers and of the copies that were saved;
* `Script.before`: what must hold before statements;
* `Script.before_onward`: it holds along with a thread that goes on;
* `Script.Takes`: statements take one condition to another, however they are entered;
* `Script.Emitted.takes`: code of the grammar keeps whatever is said of the registers and the
  copies, if it is entered while no request is waited for (`Script.Emitted.ticket`).
-/

namespace BlockScript

/-- Something said of the registers of a thread, and of the copies of them that it saved. -/
abbrev Condition := Registers → List Registers → Prop

/-- Whether the statement stands only where a thread waits for no request. -/
def Stmt.opens : Stmt → Bool
  | .label _ | .restore | .forceQueue _ | .collectAnswer => false
  | .branch .groupRunning _ _ | .branch .ticketPending _ _ => false
  | _ => true

/-- The condition holds of the latest copy and of those that were saved before it. -/
def Condition.Below (post : Condition) : Condition := fun _ saved =>
  ∃ rs rest, saved = rs :: rest ∧ post rs rest

/-- So it does, and no request is waited for. -/
def Condition.Aside (post : Condition) : Condition := fun rs saved =>
  rs.ticket = none ∧ post.Below rs saved

/-- What holds in the body of a loop that yields; one that counts has saved the registers. -/
def Compile.Loop.inside (post : Condition) : Compile.Loop → Condition
  | .counted _ => post.Aside
  | .endless | .conditional _ => post

namespace Script

/-! ## 1. Conditions before statements -/

mutual

/-- What must hold before a statement, so that a condition holds behind it. -/
def beforeAt (held : Label → Condition) : Stmt → Condition → Condition
  | .save, post => fun rs saved => post rs (rs :: saved)
  | .restore, post => fun _ saved => ∃ rs rest, saved = rs :: rest ∧ post rs rest
  | .branch _ yes no, post => fun rs saved =>
    before held yes post rs saved ∧ before held no post rs saved
  | .repeat _ body, post | .while _ body, post | .forever body, post => fun rs saved =>
    ∃ inv : Condition, inv rs saved ∧
      (∀ rs saved, inv rs saved → rs.ticket = none ∧ post rs saved) ∧
      ∀ rs saved, inv rs saved → before held body inv rs saved
  | .queue l, _ | .forceQueue l, _ | .call _ _ l, _ => held l
  | .return, _ => fun _ _ => True
  | .endCall, post => post
  | s, post => fun rs saved => ∀ rs', s.Writes rs rs' → post rs' saved

/-- What must hold before statements, so that a condition holds behind them, and at each label to
    which they lead what is held there. -/
def before (held : Label → Condition) : List Stmt → Condition → Condition
  | [], post => post
  | s :: rest, post => fun rs saved =>
    (s.opens = true → rs.ticket = none) ∧ beforeAt held s (before held rest post) rs saved

end

variable {held : Label → Condition} {post post' : Condition} {a b : List Stmt} {rs : Registers}
  {saved : List Registers}

theorem before_append (held : Label → Condition) (a b : List Stmt) (post : Condition) :
    before held (a ++ b) post = before held a (before held b post) := by
  induction a with
  | nil => rfl
  | cons s rest ih =>
    funext rs saved
    rw [List.cons_append, before, before, ih]

/-- A weaker condition behind the statements needs no more before them. -/
theorem before_mono (code : List Stmt) : ∀ {post post' : Condition},
    (∀ rs saved, post rs saved → post' rs saved) → ∀ rs saved, before held code post rs saved →
      before held code post' rs saved := by
  apply @Stmt.induction
    (fun s => ∀ {post post' : Condition}, (∀ rs saved, post rs saved → post' rs saved) →
      ∀ rs saved, beforeAt held s post rs saved → beforeAt held s post' rs saved)
    (fun code => ∀ {post post' : Condition}, (∀ rs saved, post rs saved → post' rs saved) →
      ∀ rs saved, before held code post rs saved → before held code post' rs saved)
  case leaf =>
    intro s hs post post' h rs saved hb
    cases s with
    | save | endCall => exact h _ _ hb
    | restore =>
      obtain ⟨rs', rest, heq, hpost⟩ := hb
      exact ⟨rs', rest, heq, h _ _ hpost⟩
    | queue | forceQueue | call | «return» => exact hb
    | branch | «repeat» | «while» | forever => cases hs
    | _ => exact fun rs' hw => h _ _ (hb rs' hw)
  case branch =>
    intro cond yes no hyes hno post post' h rs saved hb
    exact ⟨hyes h rs saved hb.1, hno h rs saved hb.2⟩
  case «repeat» | «while» =>
    rintro _ body - post post' h rs saved ⟨inv, hinv, hpost, hbody⟩
    refine ⟨inv, hinv, fun rs saved hi => ?_, hbody⟩
    obtain ⟨hticket, hp⟩ := hpost rs saved hi
    exact ⟨hticket, h _ _ hp⟩
  case forever =>
    rintro body - post post' h rs saved ⟨inv, hinv, hpost, hbody⟩
    refine ⟨inv, hinv, fun rs saved hi => ?_, hbody⟩
    obtain ⟨hticket, hp⟩ := hpost rs saved hi
    exact ⟨hticket, h _ _ hp⟩
  case nil => exact fun h rs saved hb => h rs saved hb
  case cons =>
    intro s rest hs hrest post post' h rs saved hb
    exact ⟨hb.1, hs (hrest h) rs saved hb.2⟩

/-! ## 2. Steps -/

variable {s : Stmt} {t t' : Thread} {rest code : List Stmt}

/-- A native loop once more. -/
theorem before_loop {loop : Stmt} {body : List Stmt}
    (hloop : ∀ post, beforeAt held loop post = fun rs saved => ∃ inv : Condition, inv rs saved ∧
      (∀ rs saved, inv rs saved → rs.ticket = none ∧ post rs saved) ∧
      ∀ rs saved, inv rs saved → before held body inv rs saved)
    (h : beforeAt held loop (before held rest post) rs saved) :
    before held ((body ++ [loop]) ++ rest) post rs saved := by
  rw [List.append_assoc, before_append]
  rw [hloop] at h
  obtain ⟨inv, hinv, hpost, hbody⟩ := h
  refine before_mono body (fun rs saved hi => ⟨fun _ => (hpost rs saved hi).1, ?_⟩) rs saved
    (hbody rs saved hinv)
  rw [hloop]
  exact ⟨inv, hi, hpost, hbody⟩

/-- **What must hold holds along with a thread that goes on.** -/
theorem before_onward (h : before held (s :: rest) post t.registers t.saveStack)
    (ho : Act.Onward s t code t') :
    before held (code ++ rest) post t'.registers t'.saveStack := by
  obtain ⟨-, h⟩ := h
  cases ho with
  | save =>
    have hregisters : t.save.registers = t.registers := by
      unfold Thread.save Thread.withSaveStack
      cases t.calls <;> rfl
    rw [hregisters, Thread.save, Thread.saveStack_withSaveStack]
    exact h
  | restore hr =>
    obtain ⟨rs, copies, hstack, hpost⟩ := h
    unfold Thread.restore? at hr
    rw [hstack] at hr
    cases hr
    have hcopies : Thread.saveStack { t.withSaveStack copies with registers := rs } = copies :=
      t.saveStack_withSaveStack copies
    rw [hcopies]
    exact hpost
  | endCall => exact h
  | done hterm hstack hbranch hk hw =>
    rw [hk.saveStack]
    cases s with
    | save | restore | endCall | call => cases hstack
    | queue | forceQueue | «return» => cases hterm
    | branch cond yes no => exact absurd rfl (hbranch cond yes no)
    | «repeat» | «while» =>
      obtain ⟨inv, hinv, hpost, -⟩ := h
      rw [show t'.registers = t.registers from hw]
      exact (hpost _ _ hinv).2
    | forever =>
      obtain ⟨inv, hinv, hpost, -⟩ := h
      rw [show t'.registers = t.registers from hw (hpost _ _ hinv).1]
      exact (hpost _ _ hinv).2
    | _ => exact h _ hw
  | yes hk hr =>
    rw [hk.saveStack, hr, before_append]
    exact h.1
  | no hk hr =>
    rw [hk.saveStack, hr, before_append]
    exact h.2
  | «repeat» left hk hr =>
    rw [hk.saveStack, hr]
    exact before_loop (fun _ => rfl) h
  | «while» hk hr =>
    rw [hk.saveStack, hr]
    exact before_loop (fun _ => rfl) h
  | forever => exact before_loop (fun _ => rfl) h

/-! ## 3. From one condition to another -/

/-- The statements take a condition before them to another behind them, and they do so if a thread
    comes to one of their labels with what is held there. -/
structure Takes (held : Label → Condition) (pre : Condition) (code : List Stmt) (post : Condition) :
    Prop where
  start : ∀ rs saved, pre rs saved → before held code post rs saved
  resume : ∀ l tails, Remains l code tails → ∀ rs saved, held l rs saved →
    before held tails.flatten post rs saved

namespace Takes

variable {pre mid : Condition} {l : Label}

theorem nil (held : Label → Condition) (post : Condition) : Takes held post [] post :=
  ⟨fun _ _ h => h, fun _ _ h => nomatch h⟩

theorem append (ha : Takes held pre a mid) (hb : Takes held mid b post) :
    Takes held pre (a ++ b) post := by
  refine ⟨fun rs saved h => ?_, fun l tails hrem rs saved h => ?_⟩
  · rw [before_append]
    exact before_mono a hb.start rs saved (ha.start rs saved h)
  · rcases hrem.of_append with ⟨ts, hts, heq⟩ | hrem
    · rw [heq, before_append]
      exact before_mono _ hb.start rs saved (ha.resume l ts hts rs saved h)
    · exact hb.resume l tails hrem rs saved h

theorem cons (hs : Takes held pre [s] mid) (h : Takes held mid rest post) :
    Takes held pre (s :: rest) post :=
  hs.append h

theorem weaken {pre' : Condition} (hpre : ∀ rs saved, pre' rs saved → pre rs saved)
    (h : Takes held pre code post) : Takes held pre' code post :=
  ⟨fun rs saved h' => h.start rs saved (hpre rs saved h'), h.resume⟩

/-- A statement without labels. -/
theorem single (hlabels : labelsAt s = [])
    (h : ∀ rs saved, pre rs saved → before held [s] post rs saved) : Takes held pre [s] post := by
  refine ⟨h, fun l tails hrem => ?_⟩
  have hmem := hrem.mem_labels
  rw [labels, labels, hlabels] at hmem
  exact absurd hmem List.not_mem_nil

theorem label (hl : held l = pre) : Takes held pre [.label l] pre := by
  refine ⟨fun rs saved h => ⟨nofun, fun rs' heq => ?_⟩, fun k tails hrem rs saved h => ?_⟩
  · rw [show rs' = rs from heq]
    exact h
  · cases hrem with
    | here =>
      rw [hl] at h
      exact h
    | later hrem => cases hrem

/-- A branch, both sides of which come to the same. -/
theorem branch {cond : Expr} {yes no : List Stmt}
    (hopens : (Stmt.branch cond yes no).opens = true → ∀ rs saved, pre rs saved → rs.ticket = none)
    (hyes : Takes held pre yes post) (hno : Takes held pre no post) :
    Takes held pre [.branch cond yes no] post := by
  refine ⟨fun rs saved h => ⟨fun ho => hopens ho rs saved h, hyes.start rs saved h,
    hno.start rs saved h⟩, fun l tails hrem rs saved h => ?_⟩
  cases hrem with
  | yes hrem =>
    rw [List.flatten_concat, List.append_nil]
    exact hyes.resume l _ hrem rs saved h
  | no hrem =>
    rw [List.flatten_concat, List.append_nil]
    exact hno.resume l _ hrem rs saved h
  | later hrem => cases hrem

theorem forceQueue (hl : held l = pre) (post : Condition) :
    Takes held pre [.forceQueue l] post := by
  refine single rfl fun rs saved h => ⟨nofun, ?_⟩
  show held l rs saved
  rw [hl]
  exact h

theorem restore (held : Label → Condition) (post : Condition) :
    Takes held post.Below [.restore] post :=
  single rfl fun _ _ h => ⟨nofun, h⟩

/-- What a request remembers, and what becomes of it, is none of the copies. -/
theorem asking {ask : Stmt} {pending : Expr} {after : List Stmt}
    (hask : Compile.Asks ask pending after) : Takes held post.Aside [ask] post.Below := by
  cases hask with
  | broadcast | switchBackdrop | sound | question =>
    exact single rfl fun _ _ h => ⟨fun _ => h.1, fun _ _ => h.2⟩

theorem set (held : Label → Condition) (post : Condition) (r : Register) (e : Expr) :
    Takes held post.Aside [.setRegister r e] post.Aside := by
  refine single rfl fun rs saved h => ⟨fun _ => h.1, ?_⟩
  rintro _ ⟨x, rfl⟩
  refine ⟨?_, h.2⟩
  have hticket : (rs.set r x).ticket = rs.ticket := by cases r <;> rfl
  rw [hticket]
  exact h.1

section Ticket

variable (hpost : ∀ rs saved, post rs saved → rs.ticket = none)

include hpost

theorem queue (hl : held l = post) (post' : Condition) : Takes held post [.queue l] post' := by
  refine single rfl fun rs saved h => ⟨fun _ => hpost rs saved h, ?_⟩
  show held l rs saved
  rw [hl]
  exact h

theorem save : Takes held post [.save] post.Aside :=
  single rfl fun rs saved h => ⟨fun _ => hpost rs saved h, hpost rs saved h, rs, saved, rfl, h⟩

/-- A statement that does without registers writes none while no request is waited for. -/
theorem unwritten (hlabels : labelsAt s = [])
    (hbefore : ∀ post, beforeAt held s post =
      fun rs saved => ∀ rs', s.Writes rs rs' → post rs' saved)
    (hwrites : ∀ rs rs', s.Writes rs rs' → rs.ticket = none → rs' = rs) :
    Takes held post [s] post := by
  refine single hlabels fun rs saved h => ⟨fun _ => hpost rs saved h, ?_⟩
  rw [hbefore]
  intro rs' hw
  rw [hwrites rs rs' hw (hpost rs saved h)]
  exact h

theorem light (hs : s.isLight = true) : Takes held post [s] post := by
  cases s with
  | motion op | looks op | list op | pen op =>
    exact unwritten hpost rfl (fun _ => rfl) fun _ _ => id
  | setVariable | changeVariable | resetTimer | createClone | deleteClone | stopAll | stopOthers =>
    exact unwritten hpost rfl (fun _ => rfl) fun _ _ => id
  | broadcast message wait | switchBackdrop message wait =>
    cases wait with
    | true => cases hs
    | false => exact unwritten hpost rfl (fun _ => rfl) fun _ _ => id
  | sound op =>
    cases op with
    | playUntilDone => cases hs
    | _ => exact unwritten hpost rfl (fun _ => rfl) fun _ _ => id
  | _ => cases hs

theorem «return» (post' : Condition) : Takes held post [.return] post' :=
  single rfl fun rs saved h => ⟨fun _ => hpost rs saved h, trivial⟩

theorem endCall : Takes held post [.endCall] post :=
  single rfl fun rs saved h => ⟨fun _ => hpost rs saved h, h⟩

/-- A native loop: what its body keeps is its invariant. -/
theorem native (loop : Compile.Loop) {body : List Stmt} (hbody : Takes held post body post) :
    Takes held post [loop.native body] post := by
  have hinv (rs : Registers) (saved : List Registers) (h : post rs saved) :
      ∃ inv : Condition, inv rs saved ∧
        (∀ rs saved, inv rs saved → rs.ticket = none ∧ post rs saved) ∧
        ∀ rs saved, inv rs saved → before held body inv rs saved :=
    ⟨post, h, fun rs saved h => ⟨hpost rs saved h, h⟩, hbody.start⟩
  cases loop with
  | counted | endless | conditional =>
    exact single rfl fun rs saved h => ⟨fun _ => hpost rs saved h, hinv rs saved h⟩

end Ticket

theorem ticket_aside {post : Condition} : ∀ rs saved, post.Aside rs saved → rs.ticket = none :=
  fun _ _ h => h.1

/-- The registers are taken back. -/
theorem takeBack (held : Label → Condition) (post : Condition) :
    Takes held post.Aside [.restore] post :=
  (restore held post).weaken fun _ _ h => h.2

/-! ## 4. Loops and waits -/

open Compile

variable (hpost : ∀ rs saved, post rs saved → rs.ticket = none)

include hpost

/-- What its body keeps holds at the label of a loop. -/
theorem yielding (loop : Loop) {body : List Stmt} {m : Label} (hm : held m = loop.inside post)
    (hbody : Takes held (loop.inside post) body (loop.inside post)) :
    Takes held post (loop.yielding m body) post := by
  cases loop with
  | counted times =>
    have hround : Takes held post.Aside
        (.setRegister .count (.binary .subtract (.register .count) one) :: body ++ [.queue m])
        post :=
      ((set held post _ _).cons hbody).append (queue ticket_aside hm post)
    exact (save hpost).cons ((set held post _ _).cons ((label hm).cons
      (branch (fun _ => ticket_aside) hround (takeBack held post))))
  | endless => exact (label hm).cons (hbody.append (queue hpost hm post))
  | conditional cond =>
    exact (label hm).cons (branch (fun _ => hpost) (hbody.append (queue hpost hm post))
      (nil held post))

theorem timedWait {n : Label} {duration : Expr} (hn : held n = post.Aside) :
    Takes held post (timedWait n duration) post := by
  have hwait : Takes held post.Aside [.branch (.or stillWaiting (.register .first))
      [.setRegister .first zero, .forceQueue n] []] post.Aside :=
    branch (fun _ => ticket_aside) ((set held post _ _).cons (forceQueue hn _)) (nil held _)
  exact (save hpost).cons ((set held post _ _).cons ((set held post _ _).cons
    ((set held post _ _).cons ((label hn).cons (hwait.cons (takeBack held post))))))

theorem glide {n : Label} {secs x y : Expr} (hn : held n = post.Aside) :
    Takes held post (glide n secs x y) post := by
  have hstep : Takes held post.Aside [.motion .glideStep] post.Aside :=
    unwritten ticket_aside rfl (fun _ => rfl) fun _ _ => id
  have hwait : Takes held post.Aside [.branch stillWaiting [.forceQueue n] []] post.Aside :=
    branch (fun _ => ticket_aside) (forceQueue hn _) (nil held _)
  exact (save hpost).cons ((set held post _ _).cons ((set held post _ _).cons
    ((set held post _ _).cons ((set held post _ _).cons ((set held post _ _).cons
      ((set held post _ _).cons ((label hn).cons (hstep.cons (hwait.cons
        (takeBack held post))))))))))

theorem poll {n : Label} {cond : Expr} (hn : held n = post) : Takes held post (poll n cond) post :=
  (label hn).cons (branch (fun _ => hpost) (forceQueue hn post) (nil held post))

/-- While an answer is waited for, only the copies are known. -/
theorem request {n : Label} {ask : Stmt} {pending : Expr} {after : List Stmt}
    (hask : Asks ask pending after) (hn : held n = post.Below) :
    Takes held post (request n ask pending after) post := by
  have hwait (hopens : (Stmt.branch pending [.forceQueue n] []).opens = false) :
      Takes held post.Below [.branch pending [.forceQueue n] []] post.Below :=
    branch (fun h => absurd h (hopens ▸ Bool.false_ne_true)) (forceQueue hn _) (nil held _)
  have hfirst {rest : List Stmt} (hrest : Takes held post.Below rest post)
      (hopens : (Stmt.branch pending [.forceQueue n] []).opens = false) :
      Takes held post (.save :: ask :: .label n :: .branch pending [.forceQueue n] [] :: rest)
        post :=
    (save hpost).cons ((asking hask).cons ((label hn).cons ((hwait hopens).cons hrest)))
  cases hask with
  | broadcast | switchBackdrop | sound => exact hfirst (restore held post) rfl
  | question =>
    have hcollect : Takes held post.Below [.collectAnswer] post.Below :=
      single rfl fun _ _ h => ⟨nofun, fun _ _ => h⟩
    exact hfirst (hcollect.cons (restore held post)) rfl

theorem call {n : Label} {p : ProcId} {args : List Expr} (hn : held n = post) :
    Takes held post [.call p args n, .label n] post := by
  refine Takes.cons (single rfl fun rs saved h => ⟨fun _ => hpost rs saved h, ?_⟩) (label hn)
  show held n rs saved
  rw [hn]
  exact h

end Takes

/-! ## 5. Compiled code -/

/-- There is a choice for the labels from one number up to another that is right, whatever is chosen
    for other labels. -/
def Chosen {α : Type} (n n' : Nat) (P : (Label → α) → Prop) : Prop :=
  ∃ f : Label → α, ∀ g : Label → α, (∀ l : Nat, Between n n' l → g l = f l) → P g

namespace Chosen

variable {α : Type} {n m n' : Nat} {P P' : (Label → α) → Prop}

theorem mono (hP : ∀ g, P g → P' g) (h : Chosen n n' P) : Chosen n n' P' := by
  obtain ⟨f, hf⟩ := h
  exact ⟨f, fun g hg => hP g (hf g hg)⟩

/-- Two choices for labels that follow one another. -/
theorem both (hle : n ≤ m) (hle' : m ≤ n') (h : Chosen n m P) (h' : Chosen m n' P') :
    Chosen n n' fun g => P g ∧ P' g := by
  obtain ⟨f, hf⟩ := h
  obtain ⟨f', hf'⟩ := h'
  refine ⟨fun l => if l < m then f l else f' l, fun g hg => ⟨hf g ?_, hf' g ?_⟩⟩ <;> intro l hl
  · exact (hg l ⟨hl.1, Nat.lt_of_lt_of_le hl.2 hle'⟩).trans (if_pos hl.2)
  · exact (hg l ⟨Nat.le_trans hle hl.1, hl.2⟩).trans (if_neg (Nat.not_lt.mpr hl.1))

/-- One more label. -/
theorem succ (hle : n ≤ m) (h : Chosen n m P) (a : α) :
    Chosen n (m + 1) fun g => g m = a ∧ P g := by
  obtain ⟨f, hf⟩ := h
  refine ⟨fun l => if l = m then a else f l, fun g hg => ⟨?_, hf g fun l hl => ?_⟩⟩
  · exact (hg m ⟨hle, Nat.lt_succ_self m⟩).trans (if_pos rfl)
  · exact (hg l ⟨hl.1, Nat.lt_succ_of_lt hl.2⟩).trans (if_neg (Nat.ne_of_lt hl.2))

/-- No label is needed. -/
theorem always (a : α) (hP : ∀ g, P g) : Chosen n n' P := ⟨fun _ => a, fun g _ => hP g⟩

/-- One label is enough. -/
theorem one (a : α) : Chosen n (n + 1) fun g : Label → α => g n = a :=
  ((always a fun _ => trivial).succ (P := fun _ => True) (Nat.le_refl n) a).mono fun _ h => h.1

end Chosen

namespace Emitted

variable {procedures : List Procedure} {own : Option Procedure} {n n' : Nat}

/-- **Code of the grammar keeps what holds of the registers and the copies**, if it is entered while
    no request is waited for. -/
theorem takes (h : Emitted procedures own n code n')
    (hpost : ∀ rs saved, post rs saved → rs.ticket = none) :
    Chosen n n' fun held => Takes held post code post := by
  induction h generalizing post with
  | nil n => exact .always post fun held => .nil held post
  | append ha hb iha ihb =>
    exact (Chosen.both ha.fragment.le hb.fragment.le (iha hpost) (ihb hpost)).mono
      fun _ h => h.1.append h.2
  | light hs => exact .always post fun _ => .light hpost hs
  | «return» n => exact .always post fun _ => .return hpost post
  | endCall _ n => exact .always post fun _ => .endCall hpost
  | branch _ hyes hno ihyes ihno =>
    exact (Chosen.both hyes.fragment.le hno.fragment.le (ihyes hpost) (ihno hpost)).mono
      fun _ h => .branch (fun _ => hpost) h.1 h.2
  | native loop _ _ _ _ ih => exact (ih hpost).mono fun _ h => .native hpost loop h
  | yielding loop _ hbody ih =>
    have hinside : ∀ rs saved, loop.inside post rs saved → rs.ticket = none := by
      cases loop with
      | counted => exact Takes.ticket_aside
      | endless | conditional => exact hpost
    exact ((ih hinside).succ hbody.fragment.le (loop.inside post)).mono
      fun _ h => .yielding hpost loop h.1 h.2
  | timedWait => exact (Chosen.one post.Aside).mono fun _ h => .timedWait hpost h
  | glide => exact (Chosen.one post.Aside).mono fun _ h => .glide hpost h
  | poll => exact (Chosen.one post).mono fun _ h => .poll hpost h
  | request hask => exact (Chosen.one post.Below).mono fun _ h => .request hpost hask h
  | call => exact (Chosen.one post).mono fun _ h => .call hpost h

/-- Code of the grammar is entered only while no request is waited for. -/
theorem ticket (h : Emitted procedures own n code n') (hne : code ≠ [])
    (hb : before held (code ++ rest) post rs saved) : rs.ticket = none := by
  have hlabel {l : Label} {code : List Stmt} (hb : before held (.label l :: code) post rs saved) :
      before held code post rs saved := hb.2 rs rfl
  induction h generalizing rest with
  | nil => exact absurd rfl hne
  | @append _ _ _ a b _ _ iha ihb =>
    rw [List.append_assoc] at hb
    cases a with
    | nil => exact ihb hne hb
    | cons s a => exact iha (List.cons_ne_nil s a) hb
  | @light _ s hs =>
    refine hb.1 ?_
    cases s with
    | label | save | restore | branch | «repeat» | «while» | forever | «return» | endCall | queue
    | forceQueue | call | setRegister | ask | collectAnswer => cases hs
    | _ => rfl
  | «return» | endCall | timedWait | glide | request | call => exact hb.1 rfl
  | @branch _ _ _ cond _ _ hcond =>
    refine hb.1 ?_
    cases cond with
    | groupRunning | ticketPending => exact hcond.elim
    | _ => rfl
  | native loop =>
    cases loop with
    | counted | endless | conditional => exact hb.1 rfl
  | @yielding _ m loop body hloop _ ih =>
    cases loop with
    | counted => exact hb.1 rfl
    | endless =>
      have hb : before held ((body ++ [.queue m]) ++ rest) post rs saved := hlabel hb
      rw [List.append_assoc] at hb
      cases body with
      | nil => exact hb.1 rfl
      | cons s body => exact ih (List.cons_ne_nil s body) hb
    | conditional cond =>
      have hcond := hloop cond List.mem_cons_self
      refine (hlabel hb).1 ?_
      cases cond with
      | groupRunning | ticketPending => exact hcond.elim
      | _ => rfl
  | @poll _ cond hcond =>
    refine (hlabel hb).1 ?_
    cases cond with
    | groupRunning | ticketPending => exact hcond.elim
    | _ => rfl

end Emitted

end Script

end BlockScript
