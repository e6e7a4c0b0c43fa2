import Mathlib.Data.List.Induction
import RecordStore.Config
import RecordStore.Proofs.Text.Decimal
import RecordStore.Proofs.Text.Word
import RecordStore.Proofs.Toml

/-!
# Layers of configuration

Environments are laid over the defaults or over a document, one after the other. For each setting
the last environment counts that has it, whatever this says: a driver that is not known is a log
and an interval that is not usable is the default one, and both hide what lies below. Only an empty
location hides nothing.

* `Interval.Meant`: the interval that a text means. `Interval.parse_eq_iff`: **it is the one that is
  read**, and it is usable.
* `Kind.Called`: the kind that a text calls. `Kind.parse_eq_iff`: **it is the one that is read.**
* `Config.Base`: what layers can lie on. `Config.Base.usable`: its interval is usable.
* `Config.Decided`: how layers decide a setting. `Config.overrideAll_eq_iff`: they do so if each
  layer does.
* `Config.layered`: **each setting is what the last layer says that has it**, and the interval is
  always usable.
-/

namespace RecordStore

open Text (Denotes InAnyCase Trimmed isSignedWord signedWord? signedWord?_eq_some_iff trim
  trimmed_iff trimmed_trim)

variable {text : String} {n : Nat}

/-! ## Intervals -/

namespace Interval

/-- That a timer can wait so many seconds. -/
def Usable (n : Nat) : Prop :=
  1 ≤ n ∧ n ≤ 0x7FFFFFFFFFFFFFFF

theorem usable_default : Usable default := ⟨by decide, by decide⟩

/-- The interval that a text means: the number between its blanks, or the default one if this
number is not usable or is none. -/
inductive Meant (text : String) : Nat → Prop
  | number {core : List Char} {n : Nat} (trimmed : Trimmed text.toList core)
      (denotes : Denotes core n) (usable : Usable n) : Meant text n
  | useless {core : List Char} (trimmed : Trimmed text.toList core)
      (useless : ∀ n, Denotes core n → ¬Usable n) : Meant text default

theorem Meant.usable (h : Meant text n) : Usable n := by
  cases h with
  | number _ _ usable => exact usable
  | useless => exact usable_default

theorem signedWord?_eq_some_iff_denotes {cs : List Char} (hn : 1 ≤ n) :
    signedWord? cs = some (n : Int) ↔ Denotes cs n ∧ Usable n := by
  rw [signedWord?_eq_some_iff hn, Usable, Nat.lt_iff_le_pred (by decide)]
  simp [hn]

theorem parse_of_denotes (hd : Denotes (trim text.toList) n) (hu : Usable n) :
    (parse text).1 = n := by
  simp only [parse, (signedWord?_eq_some_iff_denotes hu.1).mpr ⟨hd, hu⟩, ofSeconds]
  rw [if_pos (by exact_mod_cast hu.1), Int.toNat_natCast]

theorem parse_of_useless (h : ∀ n, Denotes (trim text.toList) n → ¬Usable n) :
    (parse text).1 = default := by
  simp only [parse]
  split
  · rename_i seconds hs
    rw [ofSeconds]
    split
    · rename_i hpos
      obtain ⟨n, rfl⟩ := Int.eq_ofNat_of_zero_le (Int.le_of_lt hpos)
      obtain ⟨hd, hu⟩ := (signedWord?_eq_some_iff_denotes (Int.ofNat_lt.mp hpos)).mp hs
      exact absurd hu (h _ hd)
    · rfl
  · rfl

/-- **The interval that is read is the one that a text means.** -/
theorem parse_eq_iff : (parse text).1 = n ↔ Meant text n := by
  constructor
  · rintro rfl
    by_cases h : ∀ n, Denotes (trim text.toList) n → ¬Usable n
    · rw [parse_of_useless h]
      exact .useless (trimmed_trim _) h
    · push Not at h
      obtain ⟨n, hd, hu⟩ := h
      rw [parse_of_denotes hd hu]
      exact .number (trimmed_trim _) hd hu
  · intro h
    cases h with
    | number trimmed denotes usable =>
      obtain rfl := trimmed_iff.mp trimmed
      exact parse_of_denotes denotes usable
    | useless trimmed useless =>
      obtain rfl := trimmed_iff.mp trimmed
      exact parse_of_useless useless

theorem usable_ofSeconds {seconds : Int} (h : isSignedWord seconds = true) :
    Usable (ofSeconds seconds).1 := by
  simp only [isSignedWord, Bool.and_eq_true, decide_eq_true_eq] at h
  rw [ofSeconds]
  split
  · constructor <;> dsimp only <;> omega
  · exact usable_default

end Interval

/-! ## Kinds -/

namespace Kind

/-- The names of a kind. -/
def names : Kind → List String
  | log => ["log", "flat_file", "file"]
  | tables => ["sqlite"]
  | memory => ["memory", "mock"]
  | discard => ["none"]

/-- The kind that a text calls: the one that has the name between its blanks in any case, or a log
if none has. -/
inductive Called (text : String) : Kind → Prop
  | known {core : List Char} {kind : Kind} {name : String} (trimmed : Trimmed text.toList core)
      (mem : name ∈ kind.names) (inAnyCase : InAnyCase name.toList core) : Called text kind
  | unknown {core : List Char} (trimmed : Trimmed text.toList core)
      (unknown : ∀ kind : Kind, ∀ name ∈ kind.names, ¬InAnyCase name.toList core) : Called text log

variable {kind : Kind} {name : String}

theorem parse?_eq_some_iff : parse? text = some kind ↔ normalize text ∈ kind.names := by
  simp only [parse?]
  generalize normalize text = known
  cases kind <;> grind [names]

theorem toLower_of_mem_names (h : name ∈ kind.names) : ∀ l ∈ name.toList, l.toLower = l := by
  have hall : (kind.names.all fun name => name.toList.all fun l => l.toLower == l) = true := by
    cases kind <;> decide +kernel
  intro l hl
  exact eq_of_beq (List.all_eq_true.mp (List.all_eq_true.mp hall name h) l hl)

theorem normalize_eq_iff (h : name ∈ kind.names) :
    normalize text = name ↔ InAnyCase name.toList (trim text.toList) := by
  rw [← Text.map_toLower_eq_iff (toLower_of_mem_names h), normalize, ← String.toList_inj,
    String.toList_ofList]

/-- **The kind that is read is the one that a text calls.** -/
theorem parse_eq_iff : (parse text).1 = kind ↔ Called text kind := by
  constructor
  · rintro rfl
    cases hp : parse? text with
    | some kind =>
      have hmem := parse?_eq_some_iff.mp hp
      simp only [parse, hp]
      exact .known (trimmed_trim _) hmem ((normalize_eq_iff hmem).mp rfl)
    | none =>
      simp only [parse, hp]
      refine .unknown (trimmed_trim _) fun kind name hmem h => ?_
      rw [parse?_eq_some_iff.mpr ((normalize_eq_iff hmem).mpr h ▸ hmem)] at hp
      cases hp
  · intro h
    cases h with
    | known trimmed mem inAnyCase =>
      obtain rfl := trimmed_iff.mp trimmed
      have hp := parse?_eq_some_iff.mpr ((normalize_eq_iff mem).mpr inAnyCase ▸ mem)
      simp only [parse, hp]
    | unknown trimmed unknown =>
      obtain rfl := trimmed_iff.mp trimmed
      have hp : parse? text = none := by
        refine Option.eq_none_iff_forall_ne_some.mpr fun kind hp => ?_
        have hmem := parse?_eq_some_iff.mp hp
        exact unknown kind _ hmem ((normalize_eq_iff hmem).mp rfl)
      simp only [parse, hp]

end Kind

namespace Config

/-! ## Documents -/

namespace Draft

variable {d d' : Draft} {name : String} {spot : Toml.Spot} {events : List Event}

/-- That the interval has no more than 64 bits, if it is a number. -/
def Fits (d : Draft) : Prop :=
  ∀ seconds, d.interval = some (.seconds seconds) → isSignedWord seconds = true

theorem Fits.set (h : d.Fits) (hs : ∀ v, spot = .value v → v.Fits)
    (hd : d.set name spot = (some d', events)) : d'.Fits := by
  unfold Draft.set at hd
  split at hd
  case h_1 | h_2 =>
    cases hd
    exact h
  case h_3 =>
    cases hd
    rintro seconds ⟨⟩
    exact hs _ rfl
  case h_4 =>
    cases hd
    rintro seconds ⟨⟩
  case h_5 => cases hd

theorem Fits.fill {settings : List (String × Toml.Spot)} (h : d.Fits)
    (hs : ∀ s ∈ settings, ∀ v, s.2 = .value v → v.Fits)
    (hd : d.fill settings = (some d', events)) : d'.Fits := by
  induction settings generalizing d events with
  | nil =>
    cases hd
    exact h
  | cons s settings ih =>
    obtain ⟨hs, hrest⟩ := List.forall_mem_cons.mp hs
    rw [Draft.fill] at hd
    split at hd
    · cases hd
    · rename_i hset
      exact ih (h.set hs hset) hrest (Prod.ext (Prod.mk.inj hd).1 rfl)

theorem Fits.usable_complete (h : d.Fits) : Interval.Usable d.complete.1.interval := by
  unfold Draft.complete
  cases hi : d.interval with
  | none => exact Interval.usable_default
  | some written =>
    cases written with
    | seconds seconds => exact Interval.usable_ofSeconds (h seconds hi)
    | text text => exact (Interval.parse_eq_iff.mp rfl).usable

end Draft

/-- What layers can lie on: the defaults, or what a document sets. -/
inductive Base : Config → Prop
  | default : Base {}
  | document (text : String) {c : Config} (accepted : (ofText text).1 = .ok c) : Base c

theorem usable_ofText {c : Config} (h : (ofText text).1 = .ok c) : Interval.Usable c.interval := by
  unfold ofText at h
  split at h
  · cases h
  · rename_i layout hl
    split at h
    · cases h
    · rename_i d events hf
      cases h
      refine Draft.Fits.usable_complete (Draft.Fits.fill (d := {}) (fun _ hd => by cases hd) ?_ hf)
      rintro ⟨name, _⟩ hmem v rfl
      exact (Toml.Layout.holds_of_ofText? hl).value_of_mem_top hmem

theorem Base.usable {c : Config} (h : Base c) : Interval.Usable c.interval := by
  cases h with
  | default => exact Interval.usable_default
  | document _ accepted => exact usable_ofText accepted

/-! ## Layers -/

/-- The configuration under environments, each laid over those before it. -/
def overrideAll (c : Config) (envs : List Environment) : Config :=
  envs.foldl (fun c env => (c.override env).1) c

/-- The driver that an environment has. -/
def driverIn (env : Environment) : Option String :=
  env "SIMPLEKV_DRIVER"

/-- The location that an environment has, unless it is empty. -/
def locationIn (env : Environment) : Option String :=
  (env "SIMPLEKV_LOCATION").filter (· ≠ "")

/-- The interval that an environment has. -/
def intervalIn (env : Environment) : Option String :=
  env "SIMPLEKV_SYNC_INTERVAL"

section Decided

variable {α : Type} {setting : Environment → Option String} {means : String → α → Prop} {base v : α}
  {env : Environment} {envs : List Environment}

/-- How layers decide a setting: it is what the last layer means that has it, and what it was at
the base if none has. -/
def Decided (setting : Environment → Option String) (means : String → α → Prop) (base : α)
    (envs : List Environment) (v : α) : Prop :=
  match (envs.filterMap setting).getLast? with
  | some text => means text v
  | none => base = v

/-- A layer without the setting leaves it to those below. -/
theorem decided_append_iff_of_unset (h : setting env = none) :
    Decided setting means base (envs ++ [env]) v ↔ Decided setting means base envs v := by
  rw [Decided, List.filterMap_append, List.filterMap_cons_none h, List.filterMap_nil,
    List.append_nil, Decided]

/-- A layer with the setting decides it. -/
theorem decided_append_iff_of_set {text : String} (h : setting env = some text) :
    Decided setting means base (envs ++ [env]) v ↔ means text v := by
  rw [Decided, List.filterMap_append, List.filterMap_cons_some h, List.filterMap_nil,
    List.getLast?_concat]

/-- **Layers decide a setting if each layer does**, by what is read of it where it has it. -/
theorem overrideAll_eq_iff {field : Config → α} {c : Config} (read : String → α)
    (hstep : ∀ (c : Config) env, field (c.override env).1 = ((setting env).map read).getD (field c))
    (hread : ∀ text v, read text = v ↔ means text v) :
    field (c.overrideAll envs) = v ↔ Decided setting means (field c) envs v := by
  induction envs using List.reverseRecOn with
  | nil => exact Iff.rfl
  | append_singleton envs env ih =>
    have hlast : c.overrideAll (envs ++ [env]) = ((c.overrideAll envs).override env).1 :=
      List.foldl_concat ..
    rw [hlast, hstep]
    cases h : setting env with
    | none => exact ih.trans (decided_append_iff_of_unset h).symm
    | some text => exact (hread text v).trans (decided_append_iff_of_set h).symm

end Decided

variable {c : Config} {envs : List Environment}

theorem kind_overrideAll_eq_iff {kind : Kind} :
    (c.overrideAll envs).kind = kind ↔ Decided driverIn Kind.Called c.kind envs kind := by
  refine overrideAll_eq_iff (fun text => (Kind.parse text).1) (fun c env => ?_)
    fun text kind => Kind.parse_eq_iff
  rw [override, driverIn]
  cases env "SIMPLEKV_DRIVER" <;> rfl

theorem location_overrideAll_eq_iff {location : Option String} :
    (c.overrideAll envs).location = location ↔
      Decided locationIn (fun text l => some text = l) c.location envs location := by
  refine overrideAll_eq_iff some (fun c env => ?_) fun text location => Iff.rfl
  rw [override, locationIn]
  cases (env "SIMPLEKV_LOCATION").filter (· ≠ "") <;> rfl

theorem interval_overrideAll_eq_iff :
    (c.overrideAll envs).interval = n ↔
      Decided intervalIn Interval.Meant c.interval envs n := by
  refine overrideAll_eq_iff (fun text => (Interval.parse text).1) (fun c env => ?_)
    fun text n => Interval.parse_eq_iff
  rw [override, intervalIn]
  cases env "SIMPLEKV_SYNC_INTERVAL" <;> rfl

/-- No layer makes the interval useless. -/
theorem usable_overrideAll (h : Interval.Usable c.interval) :
    Interval.Usable (c.overrideAll envs).interval := by
  have hd : Decided intervalIn Interval.Meant c.interval envs (c.overrideAll envs).interval :=
    interval_overrideAll_eq_iff.mp rfl
  rw [Decided] at hd
  split at hd
  · exact hd.usable
  · exact hd ▸ h

/-- **Each setting is what the last layer says that has it**, and what it was at the base if none
has. Its text decides the driver and the interval even where it says nothing of use. So the
interval is usable on any document and below any layers. -/
theorem layered (h : Base c) (envs : List Environment) :
    Interval.Usable (c.overrideAll envs).interval ∧
    (∀ kind, (c.overrideAll envs).kind = kind ↔
      Decided driverIn Kind.Called c.kind envs kind) ∧
    (∀ location, (c.overrideAll envs).location = location ↔
      Decided locationIn (fun text l => some text = l) c.location envs location) ∧
    (∀ n, (c.overrideAll envs).interval = n ↔
      Decided intervalIn Interval.Meant c.interval envs n) ∧
    ∀ text n, (Interval.parse text).1 = n ↔ Interval.Meant text n :=
  ⟨usable_overrideAll h.usable, fun _ => kind_overrideAll_eq_iff,
    fun _ => location_overrideAll_eq_iff, fun _ => interval_overrideAll_eq_iff,
    fun _ _ => Interval.parse_eq_iff⟩

/-- Two layers on a document. The first one is below the second, whose location is empty. -/
theorem layered_document :
    let below : Environment := fun name =>
      [("SIMPLEKV_DRIVER", " None"), ("SIMPLEKV_LOCATION", "kv"),
        ("SIMPLEKV_SYNC_INTERVAL", "-4")].lookup name
    let above : Environment := fun name => [("SIMPLEKV_LOCATION", "")].lookup name
    let document : Config := { kind := .tables, interval := 5 }
    Base document ∧
    document.overrideAll [below, above] = { kind := .discard, location := some "kv" } ∧
    Interval.Usable (document.overrideAll [below, above]).interval ∧
    Decided driverIn Kind.Called document.kind [below, above] .discard ∧
    Decided intervalIn Interval.Meant document.interval [below, above] 10 := by
  intro below above document
  have hbase : Base document :=
    .document "driver = \"sqlite\"\nsync_interval = 5" (by decide +kernel)
  obtain ⟨hu, hk, -, hi, -⟩ := layered hbase [below, above]
  exact ⟨hbase, by decide +kernel, hu, (hk _).mp (by decide +kernel), (hi _).mp (by decide +kernel)⟩

end Config

end RecordStore
