import Calculator.Settings.Load

/-! # The health probe

The URL that the probe inside the container calls. The port is parsed a second
time for it, but it is the text of the variable that goes into the URL, so that
the probe finds the server exactly if the text is the number as it is written.
-/

namespace Calculator.Settings

open Decimal Go

def scheme : Text := "http://".toList

def loopback : Text := "127.0.0.1".toList

def readyPath : Text := "/readyz".toList

/-- The readiness URL. A port that does not parse falls back to the default. -/
def healthcheckURL (getenv : Text → Text) : Text :=
  let raw := trimSpace (getenv "PORT".toList)
  let port :=
    if raw = [] then itoa defaultPort
    else match atoi raw with
      | none => itoa defaultPort
      | some n => if 0 < n ∧ n ≤ 65535 then raw else itoa defaultPort
  scheme ++ joinHostPort loopback port ++ readyPath

def readyURL (port : ℤ) : Text := "http://127.0.0.1:".toList ++ itoa port ++ "/readyz".toList

/-- The port is written without a plus sign and without leading zeros. -/
def PlainPort (raw : Text) : Prop := ∀ c ∈ (trimSpace raw).head?, c ≠ '+' ∧ c ≠ '0'

variable {P : Library} {getenv : Text → Text}

theorem url_eq_readyURL_iff {t : Text} {n : ℤ} :
    scheme ++ joinHostPort loopback t ++ readyPath = readyURL n ↔ itoa n = t := by
  have hcolon : ':' ∉ loopback := by decide
  have hscheme : "http://127.0.0.1:".toList = scheme ++ (loopback ++ [':']) := by decide
  have hurl : readyURL n = scheme ++ (loopback ++ [':']) ++ itoa n ++ readyPath :=
    congrArg (· ++ itoa n ++ readyPath) hscheme
  rw [joinHostPort, if_neg hcolon, hurl, List.append_left_inj, List.append_assoc scheme,
    List.append_right_inj, List.append_assoc loopback, List.append_right_inj,
    List.singleton_append, List.cons_inj_right, eq_comm]

/-- A loaded port is the default, or the number that the text spells. -/
theorem port_of_load (h : (load P getenv).2 = none) :
    trimSpace (getenv "PORT".toList) = [] ∧ (load P getenv).1.port = defaultPort ∨
    trimSpace (getenv "PORT".toList) ≠ [] ∧ ∃ n, atoi (trimSpace (getenv "PORT".toList)) = some n ∧
      0 ≤ n ∧ n ≤ maxPort ∧ (load P getenv).1.port = n := by
  have hvalid := load_eq_none_iff.mp h
  rw [load_of_valid hvalid]
  have hport : port.value (getenv "PORT".toList) = (resolved P getenv).port := rfl
  rw [← hport, Setting.value]
  by_cases hblank : trimSpace (getenv "PORT".toList) = []
  · exact Or.inl ⟨hblank, if_pos hblank⟩
  · refine Or.inr ⟨hblank, ?_⟩
    have hcheck := hvalid port.toVariable (by simp [settings])
    rw [invalid_toVariable_iff] at hcheck
    have hok : ∀ err, port.check (trimSpace (getenv "PORT".toList)) ≠ .error err :=
      fun err herr => hcheck ⟨hblank, err, herr⟩
    rw [if_neg hblank]
    simp only [port, Setting.integer] at hok ⊢
    cases hn : atoi (trimSpace (getenv "PORT".toList)) with
    | none =>
      rw [hn] at hok
      exact absurd rfl (hok _)
    | some n =>
      rw [hn] at hok
      dsimp only at hok ⊢
      by_cases hrange : 0 ≤ n ∧ n ≤ maxPort
      · rw [if_pos hrange]
        exact ⟨n, rfl, hrange.1, hrange.2, rfl⟩
      · rw [if_neg hrange] at hok
        exact absurd rfl (hok _)

/-- For an environment that loads with a port other than 0, the probe calls the
port that the server binds exactly if the text of the port is plain. -/
theorem healthcheckURL_iff (h : (load P getenv).2 = none) (hport : (load P getenv).1.port ≠ 0) :
    healthcheckURL getenv = readyURL (load P getenv).1.port ↔
      PlainPort (getenv "PORT".toList) := by
  unfold healthcheckURL PlainPort
  dsimp only
  rw [url_eq_readyURL_iff]
  rcases port_of_load h with ⟨hblank, hp⟩ | ⟨hset, n, hn, hnonneg, hle, hp⟩
  · rw [if_pos hblank, hp, hblank]
    exact iff_of_true rfl nofun
  · rw [if_neg hset, hn, hp]
    rw [hp] at hport
    have hpos : 0 < n := by omega
    dsimp only
    rw [if_pos ⟨hpos, hle⟩]
    exact itoa_eq_iff hn hpos

def portOnly (value : Text) (name : Text) : Text := if name = "PORT".toList then value else []

/-- A library that parses no duration and knows the ASCII letters. -/
def plainLibrary : Library := ⟨fun _ => none, Char.toLower⟩

theorem healthcheckURL_iff_portOnly :
    healthcheckURL (portOnly ['8', '2']) =
        readyURL (load plainLibrary (portOnly ['8', '2'])).1.port ↔
      PlainPort (portOnly ['8', '2'] "PORT".toList) :=
  healthcheckURL_iff (by decide +kernel) (by decide +kernel)

/-- A plus sign goes into the URL. -/
theorem healthcheckURL_misses_port :
    ¬ ∀ (P : Library) (getenv : Text → Text), (load P getenv).2 = none →
      (load P getenv).1.port ≠ 0 → healthcheckURL getenv = readyURL (load P getenv).1.port := by
  intro h
  have hfalse := h plainLibrary (portOnly ['+', '8', '2']) (by decide +kernel) (by decide +kernel)
  exact absurd hfalse (by decide +kernel)

end Calculator.Settings
