import BlockScript.Script.Stmt

/-!
# Lowering

The statements behind blocks that wait or loop. Each is a list around one fresh label `l`:

* counted loop ↦ `save; count := times; l: if count ≥ 0.5 [count -= 1; body; queue l] [restore]`
* endless loop ↦ `l: body; queue l`
* conditional loop ↦ `l: if cond [body; queue l]`
* timed wait ↦ `save; start := now; …; l: if waiting or first [first := 0; force l]; restore`
* glide ↦ `save; …; l: glide step; if waiting [force l]; restore`
* poll ↦ `l: if pending [force l]`

Inside a warp procedure a loop whose body holds no label needs no label either, and is one native
statement.
-/

namespace BlockScript.Compile

/-- The numbers as constants. -/
def zero : Expr := .number 0.0

/-- One, as a constant. -/
def one : Expr := .number 1.0

/-! ## 1. Loops that yield -/

/-- A counted loop that yields. -/
def yieldingRepeat (l : Label) (times : Expr) (body : List Stmt) : List Stmt :=
  [ .save,
    .setRegister .count times,
    .label l,
    .branch (.not (.compare .less (.register .count) (.number 0.5)))
      (.setRegister .count (.binary .subtract (.register .count) one) :: body ++ [.queue l])
      [.restore] ]

/-- An endless loop that yields. -/
def yieldingForever (l : Label) (body : List Stmt) : List Stmt :=
  .label l :: body ++ [.queue l]

/-- A conditional loop that yields. -/
def yieldingWhile (l : Label) (cond : Expr) (body : List Stmt) : List Stmt :=
  [.label l, .branch cond (body ++ [.queue l]) []]

/-! ## 2. Waits -/

/-- Whether the time that the registers describe has not passed. -/
def stillWaiting : Expr :=
  .compare .less (.binary .subtract .now (.register .start)) (.register .duration)

/-- A wait for a number of seconds, and for at least one turn. -/
def timedWait (l : Label) (duration : Expr) : List Stmt :=
  [ .save,
    .setRegister .start .now,
    .setRegister .duration duration,
    .setRegister .first one,
    .label l,
    .branch (.or stillWaiting (.register .first))
      [.setRegister .first zero, .forceQueue l] [],
    .restore ]

/-- A glide to a place. -/
def glide (l : Label) (secs x y : Expr) : List Stmt :=
  [ .save,
    .setRegister .start .now,
    .setRegister .duration secs,
    .setRegister .fromX (.sense .x),
    .setRegister .fromY (.sense .y),
    .setRegister .toX x,
    .setRegister .toY y,
    .label l,
    .motion .glideStep,
    .branch stillWaiting [.forceQueue l] [],
    .restore ]

/-- A wait as long as a condition holds. -/
def poll (l : Label) (pending : Expr) : List Stmt :=
  [.label l, .branch pending [.forceQueue l] []]

/-- A request that remembers what it waits for, the wait, and what follows it. -/
def request (l : Label) (ask : Stmt) (pending : Expr) (after : List Stmt) : List Stmt :=
  .save :: ask :: poll l pending ++ after ++ [.restore]

/-! ## 3. Constants -/

/-- The negative of an expression. -/
def negate : Expr → Expr
  | .const (.number n) => .number (-n)
  | e => .binary .subtract zero e

/-- The kind of value that an expression has without being converted. -/
def knownSlot : Expr → Option Slot
  | .compare .. | .and .. | .or .. | .not _ | .contains .. | .listContains .. | .keyPressed _
  | .touching _ | .groupRunning | .ticketPending => some .boolean
  | .join .. | .letterOf .. | .listContents _ => some .text
  | .cast slot _ => some slot
  | _ => none

/-- Converts an expression to the kind of a slot: at once if it is a constant, not at all if it has
    that kind anyway. -/
def cast (slot : Slot) : Expr → Expr
  | .const v => .const (slot.coerce v)
  | e => if slot = .any ∨ knownSlot e = some slot then e else .cast slot e

end BlockScript.Compile
