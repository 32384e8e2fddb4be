import Mathlib

/- The flags among the arguments of the manager container. Texts are lists of characters. -/
namespace ConfigConnector.Operator

open List

/-- A flag and its value. -/
abbrev Setting := List Char × List Char

def Setting.arg (setting : Setting) : List Char := setting.1 ++ '=' :: setting.2

/-- The flag an argument is of. -/
def flagOf (arg : List Char) : List Char := arg.takeWhile (· ≠ '=')

/-- Arguments are dropped and settings put before and behind the rest. -/
structure ArgRewrite where
  front : List Setting
  back : List Setting
  drops : List Char → Bool
  distinct : ((front ++ back).map Prod.fst).Nodup
  plain : ∀ setting ∈ front ++ back, '=' ∉ setting.1
  finds : ∀ setting ∈ front ++ back, ∀ arg, setting.1 <+: arg → drops arg

/-- Settings of some of the flags in front, for all arguments that contain one of the flags. -/
def prependSettings (flags : List (List Char)) (settings : List Setting)
    (known : settings.map Prod.fst <+ flags) (distinct : flags.Nodup)
    (plain : ∀ flag ∈ flags, '=' ∉ flag) : ArgRewrite where
  front := settings
  back := []
  drops arg := flags.any (· <:+: arg)
  distinct := by simpa using known.nodup distinct
  plain setting member := plain _ (known.subset (mem_map_of_mem (by simpa using member)))
  finds setting member arg found := by
    have one : setting.1 ∈ flags := known.subset (mem_map_of_mem (by simpa using member))
    simpa using ⟨setting.1, one, found.isInfix⟩

def applyRateLimitToContainerArg (qps burst : Int) : ArgRewrite :=
  prependSettings ["--qps".toList, "--burst".toList]
    ((if 0 < qps then [("--qps".toList, (toString qps).toList)] else []) ++
      if 0 < burst then [("--burst".toList, (toString burst).toList)] else [])
    (by split <;> split <;> simp) (by decide) (by decide)

/-- `strings.ToUpper(Support) == "ALL"` asks for ASCII letters only. -/
def applyPprofConfigToContainerArg (support : String) (port : Int) : ArgRewrite :=
  prependSettings ["--enable-pprof".toList, "--pprof-port".toList]
    (("--enable-pprof".toList, if support.toUpper = "ALL" then "true".toList else "false".toList) ::
      if 0 < port then [("--pprof-port".toList, (toString port).toList)] else [])
    (by
      by_cases given : 0 < port
      · rw [if_pos given]
        exact Sublist.refl _
      · rw [if_neg given]
        exact (nil_sublist _).cons_cons _) (by decide) (by decide)

def setFlagForManagerContainer (flag : List Char) (plain : '=' ∉ flag) (flagValue : List Char) :
    ArgRewrite where
  front := []
  back := [(flag, flagValue)]
  drops arg := flag <+: arg
  distinct := by simp
  plain := by simpa
  finds := by simp

inductive Customization where
  | rateLimit (qps burst : Int)
  | pprofConfig (support : String) (port : Int)
  | userProjectOverride
  | billingProject (flagValue : List Char)

def Customization.rewrite : Customization → ArgRewrite
  | rateLimit qps burst => applyRateLimitToContainerArg qps burst
  | pprofConfig support port => applyPprofConfigToContainerArg support port
  | userProjectOverride =>
    setFlagForManagerContainer "--user-project-override".toList (by decide) "true".toList
  | billingProject flagValue =>
    setFlagForManagerContainer "--billing-project".toList (by decide) flagValue

namespace ArgRewrite

variable (r : ArgRewrite) (args : List (List Char))

def apply : List (List Char) :=
  r.front.map Setting.arg ++ args.filter (!r.drops ·) ++ r.back.map Setting.arg

/-- The flags it gives a value. -/
def flags : List (List Char) := (r.front ++ r.back).map Prod.fst

/-- The given settings in the place of the arguments of their flags. -/
def exchange : List (List Char) :=
  r.front.map Setting.arg ++ args.filter (flagOf · ∉ r.flags) ++ r.back.map Setting.arg

/-- Each given flag is there once with its value, all other arguments are there as before,
and a second time changes nothing. -/
structure TouchesOnlyOwn : Prop where
  set : ∀ setting ∈ r.front ++ r.back,
    setting.arg ∈ r.apply args ∧ (r.apply args).countP (flagOf · = setting.1) = 1
  frame : (r.apply args).filter (flagOf · ∉ r.flags) = args.filter (flagOf · ∉ r.flags)
  again : r.apply (r.apply args) = r.apply args

/-- Of the arguments that are dropped (those that contain `--qps` or `--burst` for a rate limit,
`--enable-pprof` or `--pprof-port` for the profiler, those that begin with the flag for the other
two) each is of a flag that is given a value. -/
def Spares : Prop := ∀ arg ∈ args, r.drops arg → flagOf arg ∈ r.flags

variable {r args}

theorem flagOf_arg {setting : Setting} (plain : '=' ∉ setting.1) :
    flagOf setting.arg = setting.1 := by
  rw [flagOf, Setting.arg, takeWhile_append_of_pos]
  · simp
  · grind

theorem drops_of_flag {arg : List Char} (own : flagOf arg ∈ r.flags) : r.drops arg := by
  obtain ⟨setting, member, same⟩ := mem_map.mp own
  exact r.finds setting member arg (same ▸ takeWhile_prefix _)

/-- The settings have none but given flags, each once. -/
theorem countP_given (flag : List Char) :
    ((r.front ++ r.back).map Setting.arg).countP (flagOf · = flag) = r.flags.count flag := by
  rw [flags, count, countP_map, countP_map]
  exact countP_congr fun setting member => by simp [flagOf_arg (r.plain setting member)]

/-- Nothing given is among what is kept of arguments of other flags. -/
theorem filter_apply {keep : List Char → Bool}
    (foreign : ∀ arg, flagOf arg ∈ r.flags → keep arg = false) :
    (r.apply args).filter keep = args.filter fun arg => keep arg && !r.drops arg := by
  have none : ((r.front ++ r.back).map Setting.arg).filter keep = [] := by
    simp only [filter_eq_nil_iff, mem_map]
    rintro _ ⟨setting, member, rfl⟩
    rw [foreign _ (flagOf_arg (r.plain setting member) ▸ mem_map_of_mem member)]
    exact Bool.false_ne_true
  rw [map_append, filter_append, append_eq_nil_iff] at none
  rw [apply, filter_append, filter_append, none.1, none.2, filter_filter, nil_append, append_nil]

theorem set_once {setting : Setting} (member : setting ∈ r.front ++ r.back) :
    setting.arg ∈ r.apply args ∧ (r.apply args).countP (flagOf · = setting.1) = 1 := by
  have own : setting.1 ∈ r.flags := mem_map_of_mem member
  have others : (args.filter (!r.drops ·)).countP (flagOf · = setting.1) = 0 := by
    rw [countP_eq_zero]
    intro arg kept same
    have dropped := drops_of_flag (of_decide_eq_true same ▸ own)
    simp [dropped] at kept
  have given := (countP_given setting.1).trans (count_eq_one_of_mem r.distinct own)
  rw [map_append, countP_append] at given
  rw [apply, countP_append, countP_append, others, Nat.add_zero, given]
  have held : setting.arg ∈ (r.front ++ r.back).map Setting.arg := mem_map_of_mem member
  grind

theorem drops_eq (spares : Spares r args) {arg : List Char} (member : arg ∈ args) :
    r.drops arg = decide (flagOf arg ∈ r.flags) := by
  rw [Bool.eq_iff_iff, decide_eq_true_iff]
  exact ⟨spares arg member, drops_of_flag⟩

theorem apply_eq_exchange (spares : Spares r args) : r.apply args = r.exchange args := by
  have same : args.filter (!r.drops ·) = args.filter (flagOf · ∉ r.flags) :=
    filter_congr fun arg member => by rw [drops_eq spares member, decide_not]
  rw [apply, exchange, same]

theorem touchesOnlyOwn_iff : TouchesOnlyOwn r args ↔ Spares r args := by
  have frame : (r.apply args).filter (flagOf · ∉ r.flags) = _ := filter_apply (by simp)
  constructor
  · intro touches arg member dropped
    by_contra foreign
    have kept : arg ∈ args.filter (flagOf · ∉ r.flags) := mem_filter.mpr ⟨member, by simpa⟩
    rw [← touches.frame, frame] at kept
    simp [dropped] at kept
  · intro spares
    refine ⟨fun _ => set_once, ?_, ?_⟩
    · rw [frame]
      exact filter_congr fun arg member => by simp [drops_eq spares member]
    · rw [apply, filter_apply fun arg own => by simp [drops_of_flag own]]
      simp only [Bool.and_self]
      rfl

end ArgRewrite

/-- Every step of a sequence touches its own flags only. -/
def EachTouchesOnlyOwn : List Customization → List (List Char) → Prop
  | [], _ => True
  | c :: rest, args =>
    c.rewrite.TouchesOnlyOwn args ∧ EachTouchesOnlyOwn rest (c.rewrite.apply args)

/-- Every step spares the arguments that the settings so far have led to. -/
def EachSpares : List Customization → List (List Char) → Prop
  | [], _ => True
  | c :: rest, args => c.rewrite.Spares args ∧ EachSpares rest (c.rewrite.exchange args)

/-- An argument that merely contains the name of a flag is dropped with the flag. -/
theorem eachTouchesOnlyOwn_iff (steps : List Customization) (args : List (List Char)) :
    EachTouchesOnlyOwn steps args ↔ EachSpares steps args := by
  induction steps generalizing args with
  | nil => rfl
  | cons c rest ih =>
    rw [EachTouchesOnlyOwn, EachSpares, ArgRewrite.touchesOnlyOwn_iff, ih]
    exact and_congr_right fun spares => by rw [ArgRewrite.apply_eq_exchange spares]

/-- A rate limit without a burst drops the burst that is there. -/
theorem burst_dropped : ¬ EachTouchesOnlyOwn [.rateLimit 20 0] ["--burst=30".toList] := by
  rintro ⟨touches, -⟩
  exact absurd touches.frame (by decide)

end ConfigConnector.Operator
