import Mathlib.Data.List.Induction
import AirLink.Options

/-! # Options and presets

A command line sets some of the settings by options and others by presets.  What one would have: a setting
has the value of its last option, and one without an option that of the last preset which departs from the
usual value, wherever the presets stand among the options.  This is what comes out as long as a preset is
not the last to touch a setting that an option, or a preset which departs from the usual value, has touched
before.  Such a setting is replaced: it gets the value of the later preset, be it the usual one.
-/

namespace AirLink

inductive Setting where
  | channel
  | windowSize
  | fragmentSize
  | recovery
  | verifyChecksum
  | rollbackAfter
  | maxDecoders
  | maxRelays
  | group
  | service
  | interface
  | reportInterval
  deriving DecidableEq, Repr

namespace Setting

@[reducible] def Value : Setting → Type
  | channel => Option UInt32
  | windowSize | fragmentSize | maxDecoders | maxRelays | reportInterval => Nat
  | recovery | verifyChecksum => Bool
  | rollbackAfter => Option Nat
  | group => Ipv6
  | service => UInt16
  | interface => UInt32

instance decEqValue : (f : Setting) → DecidableEq f.Value
  | channel => inferInstanceAs (DecidableEq (Option UInt32))
  | windowSize | fragmentSize | maxDecoders | maxRelays | reportInterval => inferInstanceAs (DecidableEq Nat)
  | recovery | verifyChecksum => inferInstanceAs (DecidableEq Bool)
  | rollbackAfter => inferInstanceAs (DecidableEq (Option Nat))
  | group => inferInstanceAs (DecidableEq Ipv6)
  | service => inferInstanceAs (DecidableEq UInt16)
  | interface => inferInstanceAs (DecidableEq UInt32)

def of (s : Settings) : (f : Setting) → f.Value
  | channel => s.channel
  | windowSize => s.windowSize
  | fragmentSize => s.fragmentSize
  | recovery => s.recovery
  | verifyChecksum => s.verifyChecksum
  | rollbackAfter => s.rollbackAfter
  | maxDecoders => s.maxDecoders
  | maxRelays => s.maxRelays
  | group => s.endpoint.group
  | service => s.endpoint.service
  | interface => s.endpoint.interface
  | reportInterval => s.reportInterval

end Setting

namespace Choice

variable {f : Setting}

def preset? : Choice → Option Settings
  | lowSpec => some Settings.lowSpec
  | strict => some Settings.strict
  | _ => none

/-- The value that an option gives to a setting. -/
def given? : Choice → (f : Setting) → Option f.Value
  | channel id, .channel => some (some id)
  | service number, .service => some number
  | group address, .group => some address
  | interface index, .interface => some index
  | windowSize blocks, .windowSize => some blocks
  | rollbackAfter seconds, .rollbackAfter => some (if seconds = 0 then none else some seconds)
  | reportInterval milliseconds, .reportInterval => some milliseconds
  | noRecovery, .recovery => some false
  | _, _ => none

/-- The value of a preset in which it departs from the usual one. -/
def departs? (c : Choice) (f : Setting) : Option f.Value :=
  c.preset?.bind fun p => if Setting.of p f = Setting.of {} f then none else some (Setting.of p f)

/-- The value that a choice leaves a setting with, if it touches it.  A preset touches all but the channel. -/
def leaves? (c : Choice) (f : Setting) : Option f.Value :=
  (c.given? f).or (if f = .channel then none else c.preset?.map fun p => Setting.of p f)

theorem given?_of_preset {c : Choice} {p : Settings} (preset : c.preset? = some p) (f : Setting) :
    c.given? f = none := by
  cases c with
  | lowSpec | strict => rfl
  | _ => cases preset

theorem departs?_channel (c : Choice) : c.departs? .channel = none := by
  cases c <;> rfl

theorem departs?_of_preset {c : Choice} {p : Settings} (preset : c.preset? = some p) (f : Setting) :
    c.departs? f = if Setting.of p f = Setting.of {} f then none else some (Setting.of p f) := by
  rw [departs?, preset, Option.bind_some]

theorem departs?_of_no_preset {c : Choice} (plain : c.preset? = none) (f : Setting) :
    c.departs? f = none := by
  rw [departs?, plain, Option.bind_none]

theorem leaves?_of_preset {c : Choice} {p : Settings} (preset : c.preset? = some p) (other : f ≠ .channel) :
    c.leaves? f = some (Setting.of p f) := by
  rw [leaves?, given?_of_preset preset, if_neg other, preset]
  rfl

theorem leaves?_eq_none {c : Choice} (other : f ≠ .channel) :
    c.leaves? f = none ↔ c.preset? = none ∧ c.given? f = none := by
  rw [leaves?, if_neg other, Option.or_eq_none_iff, Option.map_eq_none_iff, and_comm]

/-- What a choice does to the settings, one by one. -/
theorem of_apply (o : Options) (c : Choice) (f : Setting) :
    Setting.of (c.apply o).settings f = (c.leaves? f).getD (Setting.of o.settings f) := by
  cases c <;> cases f <;> rfl

/-! ## The last choice that tells something -/

variable {α : Type} {tell : Choice → Option α}

def last? (tell : Choice → Option α) (cs : List Choice) : Option α := cs.reverse.findSome? tell

theorem last?_append_singleton (tell : Choice → Option α) (cs : List Choice) (c : Choice) :
    last? tell (cs ++ [c]) = (tell c).or (last? tell cs) := by
  rw [last?, List.reverse_append]
  change (match tell c with | some v => some v | none => last? tell cs) = _
  cases tell c <;> rfl

theorem last?_eq_none {cs : List Choice} : last? tell cs = none ↔ ∀ c ∈ cs, tell c = none := by
  rw [last?, List.findSome?_eq_none_iff]
  exact forall_congr' fun c => by rw [List.mem_reverse]

theorem exists_of_last? {cs : List Choice} {v : α} (told : last? tell cs = some v) :
    ∃ before c after, cs = before ++ c :: after ∧ tell c = some v ∧ ∀ x ∈ after, tell x = none := by
  obtain ⟨after, c, before, split, tells, silent⟩ := List.findSome?_eq_some_iff.mp told
  refine ⟨before.reverse, c, after.reverse, ?_, tells, fun x hx => silent x (List.mem_reverse.mp hx)⟩
  have again := congrArg List.reverse split
  simpa using again

theorem last?_split {before after : List Choice} {c : Choice} {v : α} (tells : tell c = some v)
    (silent : ∀ x ∈ after, tell x = none) : last? tell (before ++ c :: after) = some v := by
  have split : (before ++ c :: after).reverse = after.reverse ++ c :: before.reverse := by simp
  exact List.findSome?_eq_some_iff.mpr
    ⟨after.reverse, c, before.reverse, split, tells, fun x hx => silent x (List.mem_reverse.mp hx)⟩

theorem last?_split_eq_none {before after : List Choice} {c : Choice} (front : ∀ x ∈ before, tell x = none)
    (here : tell c = none) (silent : ∀ x ∈ after, tell x = none) :
    last? tell (before ++ c :: after) = none :=
  last?_eq_none.mpr (List.forall_mem_append.mpr ⟨front, List.forall_mem_cons.mpr ⟨here, silent⟩⟩)

theorem last?_filter {keep : Choice → Bool} (silent : ∀ c, keep c = false → tell c = none)
    (cs : List Choice) : last? tell (cs.filter keep) = last? tell cs := by
  induction cs using List.reverseRecOn with
  | nil => rfl
  | append_singleton cs c ih =>
      rw [List.filter_append, last?_append_singleton, ← ih, List.filter_cons, List.filter_nil]
      cases kept : keep c with
      | true => rw [if_pos rfl, last?_append_singleton]
      | false => rw [if_neg Bool.false_ne_true, List.append_nil, silent c kept, Option.none_or]

/-- What a run of choices leaves a setting with. -/
theorem of_foldl (o : Options) (cs : List Choice) (f : Setting) :
    Setting.of (cs.foldl apply o).settings f =
      (last? (·.leaves? f) cs).getD (Setting.of o.settings f) := by
  induction cs using List.reverseRecOn with
  | nil => rfl
  | append_singleton cs c ih =>
      rw [List.foldl_append, List.foldl_cons, List.foldl_nil, of_apply, ih, last?_append_singleton]
      cases c.leaves? f <;> rfl

end Choice

namespace Setting

open Choice (last?)

variable {f : Setting} {cs ds : List Choice}

/-- The value that is meant: that of the last option, or of the last preset that departs from the usual
value, or the usual value. -/
def meant (f : Setting) (cs : List Choice) : f.Value :=
  ((last? (·.given? f) cs).or (last? (·.departs? f) cs)).getD (of {} f)

/-- The preset `p` is the last to touch a setting, though an option has given it a value before, or `p` has
the usual value for it and a preset before has not. -/
def Replaced (f : Setting) (p : Settings) (cs : List Choice) : Prop :=
  f ≠ .channel ∧ ∃ before c after, cs = before ++ c :: after ∧ c.preset? = some p ∧
    (∀ x ∈ after, x.preset? = none ∧ x.given? f = none) ∧
    ((∃ x ∈ before, x.given? f ≠ none) ∨ of p f = of {} f ∧ ∃ x ∈ before, x.departs? f ≠ none)

def Kept (f : Setting) (cs : List Choice) : Prop := ∀ p, ¬Replaced f p cs

theorem kept_channel (cs : List Choice) : Kept .channel cs := fun _ replaced => replaced.1 rfl

/-- An option that stands behind every preset is not replaced. -/
theorem kept_of_given (before : List Choice) {after : List Choice} {c : Choice} (given : c.given? f ≠ none)
    (options : ∀ x ∈ after, x.preset? = none) : Kept f (before ++ c :: after) := by
  rintro p ⟨-, front, preset, back, split, isPreset, silent, -⟩
  have plain : c.preset? = none := by
    cases same : c.preset? with
    | none => rfl
    | some q => exact absurd (Choice.given?_of_preset same f) given
  rcases List.append_eq_append_iff.mp split with ⟨between, rfl, rest⟩ | ⟨between, rfl, rest⟩
  · cases between with
    | nil =>
        obtain ⟨rfl, -⟩ := List.cons.inj rest
        cases plain.symm.trans isPreset
    | cons first between =>
        obtain ⟨-, rfl⟩ := List.cons.inj rest
        cases (options preset (List.mem_append_right between (List.mem_cons_self ..))).symm.trans isPreset
  · cases between with
    | nil =>
        obtain ⟨rfl, -⟩ := List.cons.inj rest
        cases plain.symm.trans isPreset
    | cons first between =>
        obtain ⟨-, rfl⟩ := List.cons.inj rest
        exact absurd (silent c (List.mem_append_right between (List.mem_cons_self ..))).2 given

theorem replaced_leaves {p : Settings} (replaced : Replaced f p cs) :
    last? (·.leaves? f) cs = some (of p f) := by
  obtain ⟨other, before, c, after, rfl, preset, silent, -⟩ := replaced
  exact Choice.last?_split (Choice.leaves?_of_preset preset other) fun x hx =>
    (Choice.leaves?_eq_none other).mpr (silent x hx)

/-- A preset that is the last to touch a setting leaves it with the value that is meant, if it has not
replaced another one. -/
theorem meant_of_preset {before after : List Choice} {c : Choice} {p : Settings} (other : f ≠ .channel)
    (preset : c.preset? = some p) (silent : ∀ x ∈ after, x.preset? = none ∧ x.given? f = none)
    (kept : ¬Replaced f p (before ++ c :: after)) : meant f (before ++ c :: after) = of p f := by
  have untouched : ¬((∃ x ∈ before, x.given? f ≠ none) ∨
      of p f = of {} f ∧ ∃ x ∈ before, x.departs? f ≠ none) :=
    fun touched => kept ⟨other, before, c, after, rfl, preset, silent, touched⟩
  obtain ⟨ungiven, usual⟩ := not_or.mp untouched
  have unset : last? (·.given? f) (before ++ c :: after) = none :=
    Choice.last?_split_eq_none (fun x hx => not_not.mp fun given => ungiven ⟨x, hx, given⟩)
      (Choice.given?_of_preset preset f) fun x hx => (silent x hx).2
  have later : ∀ x ∈ after, x.departs? f = none :=
    fun x hx => Choice.departs?_of_no_preset (silent x hx).1 f
  have departs := Choice.departs?_of_preset preset f
  rw [meant, unset, Option.none_or]
  by_cases same : of p f = of {} f
  · rw [if_pos same] at departs
    have earlier : ∀ x ∈ before, x.departs? f = none :=
      fun x hx => not_not.mp fun departs => usual ⟨same, x, hx, departs⟩
    rw [Choice.last?_split_eq_none earlier departs later, same]
    rfl
  · rw [if_neg same] at departs
    rw [Choice.last?_split departs later]
    rfl

/-- What the choices leave a setting with is what is meant, if the setting is kept. -/
theorem leaves_of_kept (kept : Kept f cs) :
    (last? (·.leaves? f) cs).getD (of {} f) = meant f cs := by
  cases left : last? (·.leaves? f) cs with
  | none =>
      have untouched := Choice.last?_eq_none.mp left
      have ungiven : last? (·.given? f) cs = none :=
        Choice.last?_eq_none.mpr fun x hx => (Option.or_eq_none_iff.mp (untouched x hx)).1
      have unset : last? (·.departs? f) cs = none := by
        refine Choice.last?_eq_none.mpr fun x hx => ?_
        by_cases channel : f = .channel
        · exact channel ▸ x.departs?_channel
        · exact Choice.departs?_of_no_preset ((Choice.leaves?_eq_none channel).mp (untouched x hx)).1 f
      rw [meant, ungiven, unset]
      rfl
  | some v =>
      obtain ⟨before, c, after, rfl, leaves, silent⟩ := Choice.exists_of_last? left
      have silent_given : ∀ x ∈ after, x.given? f = none :=
        fun x hx => (Option.or_eq_none_iff.mp (silent x hx)).1
      cases given : c.given? f with
      | some w =>
          rw [Choice.leaves?, given, Option.some_or] at leaves
          rw [meant, Choice.last?_split given silent_given, ← leaves]
          rfl
      | none =>
          rw [Choice.leaves?, given, Option.none_or] at leaves
          split at leaves
          next => cases leaves
          next other =>
            obtain ⟨p, preset, rfl⟩ := Option.map_eq_some_iff.mp leaves
            exact (meant_of_preset other preset
              (fun x hx => (Choice.leaves?_eq_none other).mp (silent x hx)) (kept p)).symm

/-- Two command lines with the same presets and the same options, each in the same order. -/
def Rearranged (cs ds : List Choice) : Prop :=
  cs.filter (·.preset?.isSome) = ds.filter (·.preset?.isSome) ∧
    cs.filter (·.preset?.isNone) = ds.filter (·.preset?.isNone)

/-- What is meant does not depend on where the presets stand among the options. -/
theorem meant_rearranged (rearranged : Rearranged cs ds) (f : Setting) : meant f cs = meant f ds := by
  have options (cs : List Choice) :
      last? (·.given? f) (cs.filter (·.preset?.isNone)) = last? (·.given? f) cs :=
    Choice.last?_filter (fun c preset => by
      obtain ⟨p, preset⟩ := Option.isSome_iff_exists.mp (Option.isNone_eq_false_iff.mp preset)
      exact Choice.given?_of_preset preset f) cs
  have presets (cs : List Choice) :
      last? (·.departs? f) (cs.filter (·.preset?.isSome)) = last? (·.departs? f) cs :=
    Choice.last?_filter (fun c plain => by
      have plain := Option.isNone_iff_eq_none.mp (Option.isSome_eq_false_iff.mp plain)
      exact Choice.departs?_of_no_preset plain f) cs
  rw [meant, meant, ← options cs, ← options ds, ← presets cs, ← presets ds, rearranged.1, rearranged.2]

end Setting

/-! ## Command lines -/

/-- The words spell choices: each is an option that is known, with a value that can be read if it needs
one. -/
inductive Spells : List String → List Choice → Prop where
  | nil : Spells [] []
  | alone {word : String} {rest : List String} {c : Choice} {cs : List Choice}
    (stands : OptionWord.ofString word = .alone c) (spelled : Spells rest cs) :
    Spells (word :: rest) (c :: cs)
  | valued {word value : String} {rest : List String} {read : String → Except Expectation Choice}
    {c : Choice} {cs : List Choice} (stands : OptionWord.ofString word = .valued read)
    (reads : read value = .ok c) (spelled : Spells rest cs) :
    Spells (word :: value :: rest) (c :: cs)

theorem Spells.parseFrom {words : List String} {cs : List Choice} (spelled : Spells words cs) (o : Options)
    (ignored : List String) :
    Options.parseFrom o ignored words = (.run (cs.foldl Choice.apply o), ignored) := by
  induction spelled generalizing o with
  | nil => rfl
  | alone stands _ ih =>
      rw [Options.parseFrom, stands]
      exact ih _
  | valued stands reads _ ih =>
      rw [Options.parseFrom, stands]
      simp only [reads]
      exact ih _

/-- Options that are known, with values that can be read, are taken all.  A setting that is kept then has the
value that is meant, so that it makes no difference where the presets stand; one that is replaced has the
value of the later preset. -/
theorem Options.settings_as_meant {words : List String} {cs : List Choice} (spelled : Spells words cs) :
    ∃ o, parse words = (.run o, []) ∧
      (∀ f, Setting.Kept f cs → Setting.of o.settings f = Setting.meant f cs) ∧
      (∀ f p, Setting.Replaced f p cs → Setting.of o.settings f = Setting.of p f) ∧
      ∀ words' cs' o', Spells words' cs' → Setting.Rearranged cs cs' → parse words' = (.run o', []) →
        ∀ f, Setting.Kept f cs → Setting.Kept f cs' →
          Setting.of o'.settings f = Setting.of o.settings f := by
  have meant {ws : List String} {ds : List Choice} (spelled : Spells ws ds) {u : Options}
      (parsed : parse ws = (.run u, [])) {f : Setting} (kept : Setting.Kept f ds) :
      Setting.of u.settings f = Setting.meant f ds := by
    obtain rfl := Invocation.run.inj (Prod.mk.inj ((spelled.parseFrom {} []).symm.trans parsed)).1
    rw [Choice.of_foldl]
    exact Setting.leaves_of_kept kept
  have parsed := spelled.parseFrom {} []
  refine ⟨_, parsed, fun f kept => meant spelled parsed kept, fun f p replaced => ?_, ?_⟩
  · rw [Choice.of_foldl, Setting.replaced_leaves replaced]
    rfl
  · intro words' cs' o' spelled' rearranged parsed' f kept kept'
    rw [meant spelled' parsed' kept', meant spelled parsed kept, Setting.meant_rearranged rearranged]

/-- Of two presets and some options among them, the earlier preset loses its window and the option before the
later one its service number, while the options behind both are kept. -/
theorem Options.settings_as_meant_two_presets :
    let words := ["--low-spec", "--port", "6000", "--strict", "-c", "0x1f", "--rollback", "5"]
    let cs := [.lowSpec, .service 6000, .strict, .channel 31, .rollbackAfter 5]
    Spells words cs ∧ Setting.Kept .rollbackAfter cs ∧ Setting.Replaced .service .strict cs ∧
      Setting.Replaced .windowSize .strict cs ∧
      ∃ o, parse words = (.run o, []) ∧ o.settings.channel = some 31 ∧ o.settings.rollbackAfter = some 5 ∧
        o.settings.endpoint.service = 5742 ∧ o.settings.windowSize = 40 := by
  intro words cs
  have spelled : Spells words cs :=
    .alone rfl (.valued rfl rfl (.alone rfl (.valued rfl rfl (.valued rfl rfl .nil))))
  have rollback : Setting.Kept .rollbackAfter cs :=
    Setting.kept_of_given [.lowSpec, .service 6000, .strict, .channel 31] nofun nofun
  have service : Setting.Replaced .service .strict cs :=
    ⟨nofun, [.lowSpec, .service 6000], .strict, _, rfl, rfl, by decide,
      .inl ⟨.service 6000, by simp, nofun⟩⟩
  have window : Setting.Replaced .windowSize .strict cs :=
    ⟨nofun, [.lowSpec, .service 6000], .strict, _, rfl, rfl, by decide,
      .inr ⟨rfl, .lowSpec, by simp, nofun⟩⟩
  obtain ⟨o, parsed, meant, replaced, -⟩ := settings_as_meant spelled
  exact ⟨spelled, rollback, service, window, o, parsed, meant .channel (Setting.kept_channel cs),
    meant .rollbackAfter rollback, replaced .service .strict service, replaced .windowSize .strict window⟩

/-- A preset takes back the service number of an option before it, though not of one behind it. -/
theorem Options.service_replaced :
    Spells ["--port", "6000", "--strict"] [.service 6000, .strict] ∧
      Spells ["--strict", "--port", "6000"] [.strict, .service 6000] ∧
      Setting.meant .service [.service 6000, .strict] = (6000 : UInt16) ∧
      ∃ o u, parse ["--port", "6000", "--strict"] = (.run o, []) ∧
        parse ["--strict", "--port", "6000"] = (.run u, []) ∧
        o.settings.endpoint.service = 5742 ∧ u.settings.endpoint.service = 6000 :=
  ⟨.valued rfl rfl (.alone rfl .nil), .alone rfl (.valued rfl rfl .nil), rfl, _, _, rfl, rfl, rfl, rfl⟩

end AirLink
