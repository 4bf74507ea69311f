import Mathlib.Tactic.Tauto
import WrSwitch.Libwr.ConfigLpcalib

/-!
# The configuration store over time

Runs of set and get calls on a loaded configuration, beside the values that were given.
-/
namespace WrSwitch.Libwr

open Machine

inductive CfgOp
  | setStr (key value : List Char)
  | setInt (key : List Char) (value : Word)
  | getStr (key : List Char)
  | getInt (key : List Char)
deriving DecidableEq, Repr

def cfgStep (cfg : ConfigFile) : CfgOp → Option ConfigFile
  | .setStr key value => cfgSetStr cfg key value
  | .setInt key value => cfgSetInt cfg key value
  | .getStr key => (cfgGetStr cfg key).map Prod.snd
  | .getInt key => (cfgGetInt cfg key).map fun _ => cfg

/-- What the calls give; getters give nothing. -/
def storeStep (store : Store) : CfgOp → Store
  | .setStr key value => store.put key value
  | .setInt key value => store.put key (decimal value.toInt)
  | .getStr _ | .getInt _ => store

/-- What the file gives: the first line with the key counts. -/
def fileStore (file : List Char) : Store := lookup ((readLines strRoom file).map lineNode)

/-- A getter returns what was given and does not change what is saved later. -/
def Answers (cfg : ConfigFile) (store : Store) : CfgOp → Prop
  | .getStr key => ∃ cfg', cfgGetStr cfg key = some (store key, cfg') ∧ cfgSave cfg' = cfgSave cfg
  | .getInt key => cfgGetInt cfg key = some ((store key).map atoi)
  | .setStr _ _ | .setInt _ _ => True

/-- Every call answers as it should and leaves a configuration that survives saving and loading. -/
def Faithful (stale : Nat → Bool) : ConfigFile → Store → List CfgOp → Prop
  | _, _, [] => True
  | cfg, store, op :: ops => Answers cfg store op ∧
    ∃ cfg', cfgStep cfg op = some cfg' ∧ RoundTrip stale cfg' ∧
      Faithful stale cfg' (storeStep store op) ops

/-! ### The condition -/

/-- A value that can be set: with the key it makes one line of the file. -/
def SetOk (store : Store) (key value : List Char) : Prop :=
  TextOk value ∧ key.length + value.length < 1022 ∧ (store key = none → KeyOk key)

/-- Only keys that were given are asked for with `cfg_get_str`. -/
def CallOk (store : Store) : CfgOp → Prop
  | .setStr key value => SetOk store key value
  | .setInt key value => SetOk store key (decimal value.toInt)
  | .getStr key => store key ≠ none
  | .getInt _ => True

instance (store : Store) (key value : List Char) : Decidable (SetOk store key value) :=
  inferInstanceAs (Decidable (_ ∧ _ ∧ _))

instance (store : Store) : (op : CfgOp) → Decidable (CallOk store op)
  | .setStr key value => inferInstanceAs (Decidable (SetOk store key value))
  | .setInt key value => inferInstanceAs (Decidable (SetOk store key (decimal value.toInt)))
  | .getStr key => inferInstanceAs (Decidable (store key ≠ none))
  | .getInt _ => isTrue trivial

/-- Every line of the file fits into the buffer, and no comment gets memory with an old `next`, not
now and not when the file is loaded again. -/
def FileOk (stale stale' : Nat → Bool) (file : List Char) : Prop :=
  (∀ line ∈ readLines strRoom file, (cutLine line).length < strRoom) ∧
    FreshComments stale 0 ((readLines strRoom file).map lineNode) ∧
    FreshComments stale' 0 ((readLines strRoom file).map lineNode)

/-! ### Loading -/

/-- What is asked of a file so that it can be loaded and saved. -/
theorem loaded_iff (stale stale' : Nat → Bool) (file : List Char) :
    (∃ cfg, cfgLoad stale file = some cfg ∧ RoundTrip stale' cfg) ↔ FileOk stale stale' file := by
  constructor
  · rintro ⟨cfg, loaded, trip⟩
    obtain ⟨ended, clean, fresh'⟩ := (roundTrip_iff stale' cfg).mp trip
    obtain ⟨nodes, fresh⟩ := (cfgLoad_iff stale file cfg ended).mp loaded
    rw [nodes] at fresh' clean
    refine ⟨fun line member => ?_, fresh, fresh'⟩
    have fits := (clean _ (List.mem_map_of_mem member)).2
    rwa [KeyValue.Fits, lineNode, parseLine_text] at fits
  · rintro ⟨fits, fresh, fresh'⟩
    refine ⟨⟨(readLines strRoom file).map lineNode, true⟩,
      (cfgLoad_iff stale file _ rfl).mpr ⟨rfl, fresh⟩, (roundTrip_iff stale' _).mpr
        ⟨rfl, fun kv member => ?_, fresh'⟩⟩
    obtain ⟨line, among, rfl⟩ := List.mem_map.mp member
    refine ⟨parseLine_clean (cutLine_ok line), ?_⟩
    rw [KeyValue.Fits, lineNode, parseLine_text]
    exact fits line among

/-! ### Calls -/

/-- The state between two calls. -/
structure Sound (stale : Nat → Bool) (cfg : ConfigFile) (store : Store) : Prop where
  trip : RoundTrip stale cfg
  given : lookup cfg.nodes = store

/-- A sound configuration has an end. -/
theorem Sound.ended {stale : Nat → Bool} {cfg : ConfigFile} {store : Store}
    (sound : Sound stale cfg store) : cfg.ended = true :=
  ((roundTrip_iff stale cfg).mp sound.trip).1

/-- The nodes of a sound configuration are clean. -/
theorem Sound.clean {stale : Nat → Bool} {cfg : ConfigFile} {store : Store}
    (sound : Sound stale cfg store) : ∀ kv ∈ cfg.nodes, kv.Clean :=
  fun kv member => (((roundTrip_iff stale cfg).mp sound.trip).2.1 kv member).1

/-- A key that has a node has a value. -/
theorem lookup_none_iff {nodes : List KeyValue} (clean : ∀ kv ∈ nodes, kv.Clean)
    (key : List Char) :
    lookup nodes key = none ↔ nodes.findIdx? (fun kv => kv.matches key) = none := by
  refine ⟨fun none => ?_, lookup_absent⟩
  induction nodes with
  | nil => rfl
  | cons kv nodes ih =>
    obtain ⟨own, others⟩ := List.forall_mem_cons.mp clean
    rw [lookup_cons] at none
    rw [List.findIdx?_cons]
    split at none
    -- a line that names the key is no comment, so it has a value
    next matched =>
      exfalso
      obtain ⟨k, named, _⟩ := (matches_iff kv key).mp matched
      obtain ⟨comment, rfl⟩ | ⟨_, value, rfl⟩ := own.cases
      · cases named
      · cases none
    next other =>
      rw [if_neg other, ih others none]
      rfl

/-- The integer at a key, if there is one. -/
theorem cfgGetInt_eq {cfg : ConfigFile} (ended : cfg.ended = true)
    (clean : ∀ kv ∈ cfg.nodes, kv.Clean) (key : List Char) :
    cfgGetInt cfg key = some ((lookup cfg.nodes key).map atoi) := by
  rw [cfgGetInt, cfgFindKey]
  cases found : cfg.nodes.findIdx? fun kv => kv.matches key with
  | none =>
    rw [lookup_absent found]
    simp [ended]
  | some i =>
    rw [← valueAt_found found]
    cases value : valueAt cfg i with
    | none =>
      rw [valueAt_found found, lookup_none_iff clean, found] at value
      cases value
    | some value => simp [value]

private theorem unlines_length (texts : List (List Char)) (text : List Char) :
    (unlines texts).length < (unlines (texts ++ [text])).length := by
  simp [unlines]

/-- Asking for a string adds a key that was not given. -/
theorem answers_getStr_iff {cfg : ConfigFile} (ended : cfg.ended = true)
    (clean : ∀ kv ∈ cfg.nodes, kv.Clean) (key : List Char) :
    Answers cfg (lookup cfg.nodes) (.getStr key) ↔ lookup cfg.nodes key ≠ none := by
  rw [ne_eq, lookup_none_iff clean, Answers, cfgGetStr, cfgFindKey]
  cases found : cfg.nodes.findIdx? fun kv => kv.matches key with
  | none =>
    refine iff_of_false ?_ fun absent => absent rfl
    rintro ⟨cfg', same, saved⟩
    simp only [ended, Bool.true_eq_false, if_false, Option.some.injEq, Prod.mk.injEq] at same
    rw [← same.2, cfgSave, cfgSave, if_pos ended, if_pos rfl, Option.some.injEq] at saved
    have longer := unlines_length (cfg.nodes.map KeyValue.text) (KeyValue.text ⟨none, some key, none⟩)
    rw [← saved, List.map_append] at longer
    exact absurd longer (Nat.lt_irrefl _)
  | some i =>
    refine iff_of_true ⟨cfg, ?_, rfl⟩ (by simp)
    rw [← valueAt_found found]

/-- A string that exists is returned, and nothing is added. -/
theorem cfgGetStr_present {cfg : ConfigFile} {key : List Char} (clean : ∀ kv ∈ cfg.nodes, kv.Clean)
    (present : lookup cfg.nodes key ≠ none) :
    cfgGetStr cfg key = some (lookup cfg.nodes key, cfg) := by
  rw [ne_eq, lookup_none_iff clean] at present
  obtain ⟨i, found⟩ := Option.ne_none_iff_exists'.mp present
  rw [cfgGetStr, cfgFindKey, found, ← valueAt_found found]

/-- What a set call makes of clean lines. -/
theorem setNodes_clean_iff {nodes : List KeyValue} (clean : ∀ kv ∈ nodes, kv.Clean ∧ kv.Fits)
    (key value : List Char) :
    (∀ kv ∈ setNodes key value nodes, kv.Clean ∧ kv.Fits) ↔ SetOk (lookup nodes) key value := by
  -- the line with its equals sign fits the buffer
  have length (k v : List Char) : KeyValue.Fits ⟨none, some k, some v⟩ ↔
      k.length + v.length < 1022 := by
    have text : KeyValue.text ⟨none, some k, some v⟩ = k ++ '=' :: v := rfl
    have room : strRoom = 1023 := rfl
    rw [KeyValue.Fits, text, List.length_append, List.length_cons, room]
    omega
  induction nodes with
  | nil =>
    rw [setNodes, List.forall_mem_singleton, clean_pair_iff, length, SetOk]
    have absent : lookup [] key = none := rfl
    rw [absent, forall_prop_of_true rfl]
    tauto
  | cons kv nodes ih =>
    obtain ⟨own, others⟩ := List.forall_mem_cons.mp clean
    rw [setNodes]
    split
    next matched =>
      obtain ⟨k, named, same⟩ := (matches_iff kv key).mp matched
      rw [List.forall_mem_cons, SetOk, lookup_cons, if_pos matched]
      -- a comment node has no key to match
      obtain ⟨comment, rfl⟩ | ⟨k', old, rfl⟩ := own.1.cases
      · cases named
      · cases named
        have size : k.length = key.length := by
          have mapped := congrArg List.length ((sameKey_iff key k).mp same)
          rwa [List.length_map, List.length_map, eq_comm] at mapped
        have keyOk := ((clean_pair_iff k old).mp own.1).1
        rw [clean_pair_iff, length, size, and_iff_left others, and_iff_right keyOk]
        simp
    next other =>
      rw [List.forall_mem_cons, SetOk, lookup_cons, if_neg other, ← SetOk]
      exact (and_iff_right own).trans (ih others)

private theorem setNodes_fresh (stale : Nat → Bool) (first : Nat) {nodes : List KeyValue}
    (clean : ∀ kv ∈ nodes, kv.Clean) (key value : List Char) :
    FreshComments stale first (setNodes key value nodes) ↔ FreshComments stale first nodes := by
  induction nodes generalizing first with
  | nil =>
    rw [setNodes, freshComments_cons]
    refine iff_of_true ⟨fun comment => ?_, fun i kv at_i => ?_⟩ fun i kv at_i => ?_
    · cases comment
    · cases at_i
    · cases at_i
  | cons kv nodes ih =>
    obtain ⟨_, others⟩ := List.forall_mem_cons.mp clean
    rw [setNodes]
    split
    next => rw [freshComments_cons, freshComments_cons]
    next => rw [freshComments_cons, freshComments_cons, ih (first + 1) others]

/-- The configuration after a value was set survives exactly if the value can be set. -/
theorem set_sound_iff {stale : Nat → Bool} {cfg : ConfigFile} {store : Store}
    (sound : Sound stale cfg store) (key value : List Char) :
    RoundTrip stale { cfg with nodes := setNodes key value cfg.nodes } ↔ SetOk store key value := by
  obtain ⟨ended, clean, fresh⟩ := (roundTrip_iff stale cfg).mp sound.trip
  rw [roundTrip_iff, ← sound.given]
  change cfg.ended = true ∧ _ ∧ _ ↔ _
  rw [and_iff_right ended, setNodes_clean_iff clean,
    setNodes_fresh stale 0 (fun kv member => (clean kv member).1)]
  exact and_iff_left fresh

/-- A value that is set is the value that is given. -/
theorem set_given {stale : Nat → Bool} {cfg : ConfigFile} {store : Store}
    (sound : Sound stale cfg store) (key value : List Char) :
    lookup (setNodes key value cfg.nodes) = store.put key value := by
  rw [lookup_setNodes, sound.given]

/-- One call. -/
theorem call_iff {stale : Nat → Bool} {cfg : ConfigFile} {store : Store}
    (sound : Sound stale cfg store) (op : CfgOp) :
    (Answers cfg store op ∧ ∃ cfg', cfgStep cfg op = some cfg' ∧ RoundTrip stale cfg') ↔
      CallOk store op := by
  have ended := sound.ended
  have clean := sound.clean
  have set (key value : List Char) : (∃ cfg', cfgSetStr cfg key value = some cfg' ∧
      RoundTrip stale cfg') ↔ SetOk store key value := by
    rw [cfgSetStr_eq ended, ← set_sound_iff sound]
    simp only [Option.some.injEq, exists_eq_left']
  -- a write is answered by the file it leaves, a read leaves it alone
  cases op with
  | setStr key value => exact (and_iff_right trivial).trans (set key value)
  | setInt key value => exact (and_iff_right trivial).trans (set key _)
  | getStr key =>
    rw [CallOk, ← sound.given]
    constructor
    · rintro ⟨answers, _⟩
      exact (answers_getStr_iff ended clean key).mp answers
    · intro present
      refine ⟨(answers_getStr_iff ended clean key).mpr present, cfg, ?_, sound.trip⟩
      rw [cfgStep, cfgGetStr_present clean present]
      rfl
  | getInt key =>
    refine iff_of_true ⟨?_, cfg, ?_, sound.trip⟩ trivial
    · rw [Answers, cfgGetInt_eq ended clean, sound.given]
    · rw [cfgStep, cfgGetInt_eq ended clean]
      rfl

private theorem call_sound {stale : Nat → Bool} {cfg cfg' : ConfigFile} {store : Store} {op : CfgOp}
    (sound : Sound stale cfg store) (ok : CallOk store op) (called : cfgStep cfg op = some cfg')
    (trip : RoundTrip stale cfg') : Sound stale cfg' (storeStep store op) := by
  refine ⟨trip, ?_⟩
  have ended := sound.ended
  have clean := sound.clean
  cases op with
  | setStr key value =>
    rw [cfgStep, cfgSetStr_eq ended] at called
    cases called
    exact set_given sound key value
  | setInt key value =>
    rw [cfgStep, cfgSetInt, cfgSetStr_eq ended] at called
    cases called
    exact set_given sound key _
  | getStr key =>
    -- the getter would create a key that is missing
    rw [CallOk, ← sound.given] at ok
    rw [cfgStep, cfgGetStr_present clean ok] at called
    cases called
    exact sound.given
  | getInt key =>
    rw [cfgStep, cfgGetInt_eq ended clean] at called
    cases called
    exact sound.given

private theorem faithful_iff {stale : Nat → Bool} {cfg : ConfigFile} {store : Store}
    (sound : Sound stale cfg store) (ops : List CfgOp) :
    Faithful stale cfg store ops ↔ Along CallOk storeStep store ops := by
  induction ops generalizing cfg store with
  | nil => exact Iff.rfl
  | cons op ops ih =>
    constructor
    · rintro ⟨answers, cfg', called, trip, rest⟩
      have ok := (call_iff sound op).mp ⟨answers, cfg', called, trip⟩
      exact ⟨ok, (ih (call_sound sound ok called trip)).mp rest⟩
    · rintro ⟨ok, rest⟩
      obtain ⟨answers, cfg', called, trip⟩ := (call_iff sound op).mpr ok
      exact ⟨answers, cfg', called, trip, (ih (call_sound sound ok called trip)).mpr rest⟩

/-- What was loaded is what the file gives. -/
theorem loaded_sound {stale stale' : Nat → Bool} {file : List Char} {cfg : ConfigFile}
    (loaded : cfgLoad stale file = some cfg) (trip : RoundTrip stale' cfg) :
    Sound stale' cfg (fileStore file) := by
  refine ⟨trip, ?_⟩
  have ended := ((roundTrip_iff stale' cfg).mp trip).1
  rw [((cfgLoad_iff stale file cfg ended).mp loaded).1, fileStore]

/-- A file is loaded and the calls are made; after each of them the configuration survives saving
and loading. -/
def Kept (stale stale' : Nat → Bool) (file : List Char) (ops : List CfgOp) : Prop :=
  ∃ cfg, cfgLoad stale file = some cfg ∧ RoundTrip stale' cfg ∧
    Faithful stale' cfg (fileStore file) ops

/-- The calls keep the configuration exactly if each of them meets its condition. -/
theorem kept_iff (stale stale' : Nat → Bool) (file : List Char) (ops : List CfgOp) :
    Kept stale stale' file ops ↔
      FileOk stale stale' file ∧ Along CallOk storeStep (fileStore file) ops := by
  rw [← loaded_iff]
  constructor
  · rintro ⟨cfg, loaded, trip, faithful⟩
    exact ⟨⟨cfg, loaded, trip⟩, (faithful_iff (loaded_sound loaded trip) ops).mp faithful⟩
  · rintro ⟨⟨cfg, loaded, trip⟩, along⟩
    exact ⟨cfg, loaded, trip, (faithful_iff (loaded_sound loaded trip) ops).mpr along⟩

end WrSwitch.Libwr
