import Calculator.Go.Strconv

/-! # Reading variables

The loader reads one environment variable after another and collects every
failure on the way. A variable that is unset or blank takes its default, and so
does one whose value is refused. Each reader is, for the check that its values
have to pass, the same one.
-/

namespace Calculator.Settings

open Decimal Go

structure Library where
  /-- The nanoseconds of a text such as `1m30s`. -/
  parseDuration : Text → Option ℤ
  /-- The lower case of a character. -/
  toLower : Char → Char

structure ParseError where
  name : Text
  value : Text
  err : Text
  deriving DecidableEq

structure Loader where
  getenv : Text → Text
  errs : List ParseError

inductive Level where
  | debug | info | warn | error
  deriving DecidableEq

/-- The formats of the log; `unset` is the zero value. -/
inductive LogFormat where
  | unset | json | text
  deriving DecidableEq

def levels : List (Text × Level) :=
  [("debug".toList, .debug), ("info".toList, .info), ("warn".toList, .warn),
    ("error".toList, .error)]

def mustBeBetween (minimum maximum : ℤ) : Text :=
  "must be between ".toList ++ itoa minimum ++ " and ".toList ++ itoa maximum

def mustBeDuration : Text := "must be a duration such as 750ms, 5s or 2m".toList

def mustBeLevel : Text := "must be one of debug, info, warn, error".toList

namespace Loader

/-- The trimmed value of a variable, and whether it is set to something. -/
def lookup (l : Loader) (name : Text) : Text × Bool :=
  let v := trimSpace (l.getenv name)
  (v, v ≠ [])

def fail (l : Loader) (name value err : Text) : Loader :=
  { l with errs := l.errs ++ [⟨name, value, err⟩] }

def text (l : Loader) (name default : Text) : Text × Loader :=
  let (v, ok) := l.lookup name
  if ok then (v, l) else (default, l)

/-- The items of a list between commas, without the empty ones. -/
def csv (l : Loader) (name : Text) : List Text × Loader :=
  let (v, ok) := l.lookup name
  if !ok then ([], l)
  else (((v.splitOn ',').map trimSpace).filter (· ≠ []), l)

def integer (l : Loader) (name : Text) (default minimum maximum : ℤ) : ℤ × Loader :=
  let (v, ok) := l.lookup name
  if !ok then (default, l)
  else match atoi v with
    | none => (default, l.fail name v "must be an integer".toList)
    | some n =>
      if n < minimum ∨ n > maximum then (default, l.fail name v (mustBeBetween minimum maximum))
      else (n, l)

def integer64 (l : Loader) (name : Text) (default minimum maximum : ℤ) : ℤ × Loader :=
  let (v, ok) := l.lookup name
  if !ok then (default, l)
  else match parseInt v with
    | none => (default, l.fail name v "must be an integer".toList)
    | some n =>
      if n < minimum ∨ n > maximum then (default, l.fail name v (mustBeBetween minimum maximum))
      else (n, l)

def boolean (l : Loader) (name : Text) (default : Bool) : Bool × Loader :=
  let (v, ok) := l.lookup name
  if !ok then (default, l)
  else match parseBool v with
    | none => (default, l.fail name v "must be true or false".toList)
    | some b => (b, l)

section Durations

variable (P : Library)

/-- The parsed value, the text it came from, and whether there is one to check. -/
def parseDuration (l : Loader) (name : Text) (default : ℤ) : (ℤ × Text × Bool) × Loader :=
  let (v, set) := l.lookup name
  if !set then ((default, v, false), l)
  else match P.parseDuration v with
    | none =>
      ((default, v, false), l.fail name v mustBeDuration)
    | some d => ((d, v, true), l)

def duration (l : Loader) (name : Text) (default : ℤ) : ℤ × Loader :=
  let ((d, raw, ok), l) := l.parseDuration P name default
  if !ok then (default, l)
  else if d < 0 then (default, l.fail name raw "must not be negative".toList)
  else (d, l)

def positiveDuration (l : Loader) (name : Text) (default : ℤ) : ℤ × Loader :=
  let ((d, raw, ok), l) := l.parseDuration P name default
  if !ok then (default, l)
  else if d ≤ 0 then (default, l.fail name raw "must be greater than zero".toList)
  else (d, l)

def level (l : Loader) (name : Text) (default : Level) : Level × Loader :=
  let (v, ok) := l.lookup name
  if !ok then (default, l)
  else match levels.find? (·.1 = v.map P.toLower) with
    | some found => (found.2, l)
    | none => (default, l.fail name v mustBeLevel)

def format (l : Loader) (name : Text) (default : LogFormat) : LogFormat × Loader :=
  let (v, ok) := l.lookup name
  if !ok then (default, l)
  else
    let f := v.map P.toLower
    if f = "json".toList then (.json, l)
    else if f = "text".toList then (.text, l)
    else (default, l.fail name v "must be one of json, text".toList)

end Durations

end Loader

/-- A variable, and what is wrong with a text for it. -/
structure Variable where
  name : Text
  fault : Text → Option Text

/-- The error about a variable, if its text is at fault. -/
def Variable.errors (getenv : Text → Text) (x : Variable) : List ParseError :=
  (x.fault (getenv x.name)).toList.map fun err => ⟨x.name, trimSpace (getenv x.name), err⟩

/-- A variable, its default, and what becomes of a value that is not blank: the
value it stands for, or what is wrong with it. -/
structure Setting (α : Type) where
  name : Text
  default : α
  check : Text → Except Text α

namespace Setting

variable {α : Type} (s : Setting α)

/-- The value of the setting, given the text of its variable. -/
def value (raw : Text) : α :=
  if trimSpace raw = [] then s.default
  else match s.check (trimSpace raw) with
    | .ok a => a
    | .error _ => s.default

def fault (raw : Text) : Option Text :=
  if trimSpace raw = [] then none
  else match s.check (trimSpace raw) with
    | .ok _ => none
    | .error err => some err

def toVariable : Variable := ⟨s.name, s.fault⟩

def text (name default : Text) : Setting Text := ⟨name, default, .ok⟩

def csv (name : Text) : Setting (List Text) :=
  ⟨name, [], fun v => .ok (((v.splitOn ',').map trimSpace).filter (· ≠ []))⟩

def integer (name : Text) (default minimum maximum : ℤ) : Setting ℤ :=
  ⟨name, default, fun v => match atoi v with
    | none => .error "must be an integer".toList
    | some n => if minimum ≤ n ∧ n ≤ maximum then .ok n else .error (mustBeBetween minimum maximum)⟩

def boolean (name : Text) (default : Bool) : Setting Bool :=
  ⟨name, default, fun v => match parseBool v with
    | none => .error "must be true or false".toList
    | some b => .ok b⟩

def duration (P : Library) (name : Text) (default : ℤ) (fits : ℤ → Bool) (otherwise : Text) :
    Setting ℤ :=
  ⟨name, default, fun v => match P.parseDuration v with
    | none => .error mustBeDuration
    | some d => if fits d then .ok d else .error otherwise⟩

def level (P : Library) (name : Text) (default : Level) : Setting Level :=
  ⟨name, default, fun v => match levels.find? (·.1 = v.map P.toLower) with
    | some found => .ok found.2
    | none => .error mustBeLevel⟩

def format (P : Library) (name : Text) (default : LogFormat) : Setting LogFormat :=
  ⟨name, default, fun v =>
    if v.map P.toLower = "json".toList then .ok .json
    else if v.map P.toLower = "text".toList then .ok .text
    else .error "must be one of json, text".toList⟩

end Setting

namespace Loader

variable {α : Type} {P : Library} {l : Loader} {name : Text}

def read (l : Loader) (s : Setting α) : α × Loader :=
  let v := trimSpace (l.getenv s.name)
  if v = [] then (s.default, l)
  else match s.check v with
    | .ok a => (a, l)
    | .error err => (s.default, l.fail s.name v err)

theorem lookup_of_blank (h : trimSpace (l.getenv name) = []) : l.lookup name = ([], false) := by
  simp [lookup, h]

theorem lookup_of_set (h : trimSpace (l.getenv name) ≠ []) :
    l.lookup name = (trimSpace (l.getenv name), true) := by
  simp [lookup, h]

theorem read_of_blank {s : Setting α} (h : trimSpace (l.getenv s.name) = []) :
    l.read s = (s.default, l) := if_pos h

theorem read_of_set {s : Setting α} (h : trimSpace (l.getenv s.name) ≠ []) :
    l.read s = match s.check (trimSpace (l.getenv s.name)) with
      | .ok a => (a, l)
      | .error err => (s.default, l.fail s.name (trimSpace (l.getenv s.name)) err) := if_neg h

theorem text_eq {default : Text} : l.text name default = l.read (.text name default) := by
  by_cases h : trimSpace (l.getenv name) = []
  · rw [read_of_blank h, text, lookup_of_blank h]
    rfl
  · rw [read_of_set h, text, lookup_of_set h]
    rfl

theorem csv_eq : l.csv name = l.read (.csv name) := by
  by_cases h : trimSpace (l.getenv name) = []
  · rw [read_of_blank h, csv, lookup_of_blank h]
    rfl
  · rw [read_of_set h, csv, lookup_of_set h]
    rfl

theorem integer_eq {default minimum maximum : ℤ} :
    l.integer name default minimum maximum = l.read (.integer name default minimum maximum) := by
  by_cases h : trimSpace (l.getenv name) = []
  · rw [read_of_blank h, integer, lookup_of_blank h]
    rfl
  · rw [read_of_set h, integer, lookup_of_set h, Setting.integer]
    dsimp only
    rw [if_neg (by simp)]
    cases atoi (trimSpace (l.getenv name)) with
    | none => rfl
    | some n =>
      dsimp only
      by_cases hn : minimum ≤ n ∧ n ≤ maximum
      · rw [if_pos hn, if_neg (by omega)]
      · rw [if_neg hn, if_pos (by omega)]

theorem integer64_eq {default minimum maximum : ℤ} :
    l.integer64 name default minimum maximum = l.read (.integer name default minimum maximum) :=
  integer_eq

theorem boolean_eq {default : Bool} : l.boolean name default = l.read (.boolean name default) := by
  by_cases h : trimSpace (l.getenv name) = []
  · rw [read_of_blank h, boolean, lookup_of_blank h]
    rfl
  · rw [read_of_set h, boolean, lookup_of_set h, Setting.boolean]
    dsimp only
    rw [if_neg (by simp)]
    cases parseBool (trimSpace (l.getenv name)) <;> rfl

theorem parseDuration_of_blank (h : trimSpace (l.getenv name) = []) (default : ℤ) :
    l.parseDuration P name default = ((default, [], false), l) := by
  rw [parseDuration, lookup_of_blank h]
  rfl

theorem parseDuration_of_set (h : trimSpace (l.getenv name) ≠ []) (default : ℤ) :
    l.parseDuration P name default = match P.parseDuration (trimSpace (l.getenv name)) with
      | none => ((default, trimSpace (l.getenv name), false),
          l.fail name (trimSpace (l.getenv name)) mustBeDuration)
      | some d => ((d, trimSpace (l.getenv name), true), l) := by
  rw [parseDuration, lookup_of_set h]
  rfl

theorem duration_eq {default : ℤ} : l.duration P name default =
    l.read (.duration P name default (0 ≤ ·) "must not be negative".toList) := by
  by_cases h : trimSpace (l.getenv name) = []
  · rw [read_of_blank h, duration, parseDuration_of_blank h]
    rfl
  · rw [read_of_set h, duration, parseDuration_of_set h, Setting.duration]
    dsimp only
    cases P.parseDuration (trimSpace (l.getenv name)) with
    | none => rfl
    | some d =>
      dsimp only
      rw [if_neg (by simp)]
      by_cases hd : d < 0
      · rw [if_pos hd, if_neg (by simpa using hd)]
      · rw [if_neg hd, if_pos (by simpa using hd)]

theorem positiveDuration_eq {default : ℤ} : l.positiveDuration P name default =
    l.read (.duration P name default (0 < ·) "must be greater than zero".toList) := by
  by_cases h : trimSpace (l.getenv name) = []
  · rw [read_of_blank h, positiveDuration, parseDuration_of_blank h]
    rfl
  · rw [read_of_set h, positiveDuration, parseDuration_of_set h, Setting.duration]
    dsimp only
    cases P.parseDuration (trimSpace (l.getenv name)) with
    | none => rfl
    | some d =>
      dsimp only
      rw [if_neg (by simp)]
      by_cases hd : d ≤ 0
      · rw [if_pos hd, if_neg (by simpa using hd)]
      · rw [if_neg hd, if_pos (by simpa using hd)]

theorem level_eq {default : Level} : l.level P name default = l.read (.level P name default) := by
  by_cases h : trimSpace (l.getenv name) = []
  · rw [read_of_blank h, level, lookup_of_blank h]
    rfl
  · rw [read_of_set h, level, lookup_of_set h, Setting.level]
    dsimp only
    rw [if_neg (by simp)]
    cases levels.find? (·.1 = (trimSpace (l.getenv name)).map P.toLower) <;> rfl

theorem format_eq {default : LogFormat} :
    l.format P name default = l.read (.format P name default) := by
  by_cases h : trimSpace (l.getenv name) = []
  · rw [read_of_blank h, format, lookup_of_blank h]
    rfl
  · rw [read_of_set h, format, lookup_of_set h, Setting.format]
    dsimp only
    rw [if_neg (by simp)]
    split
    · rfl
    · split <;> rfl

/-- What reading a setting leaves behind: the error about its own variable, if
there is one. -/
def note (l : Loader) (s : Setting α) : Loader :=
  { l with errs := l.errs ++ s.toVariable.errors l.getenv }

@[simp] theorem note_getenv (s : Setting α) : (l.note s).getenv = l.getenv := rfl

@[simp] theorem note_errs (s : Setting α) :
    (l.note s).errs = l.errs ++ s.toVariable.errors l.getenv := rfl

theorem read_eq (s : Setting α) : l.read s = (s.value (l.getenv s.name), l.note s) := by
  by_cases h : trimSpace (l.getenv s.name) = []
  · simp [read_of_blank h, note, Setting.value, Setting.toVariable, Variable.errors,
      Setting.fault, h]
  · rw [read_of_set h]
    cases hc : s.check (trimSpace (l.getenv s.name)) <;>
      simp [note, Setting.value, Setting.toVariable, Variable.errors, Setting.fault, fail, h, hc]

end Loader

end Calculator.Settings
