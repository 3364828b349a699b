/-
  Each setting is resolved on its own.

  * `Json.Value.Has`: a member of an object, as it is looked up.
  * `Json.Value.Rearranged`: values that differ in the order of members only.
  * `Setting`: the settings one by one, each with the option that forces it, its
    place in a JSON value, the values it takes there, and its default.
  * `Setting.Resolves`: which of the three a setting follows.
  * `ListingOptions.settings_by_field`: so each setting of a listing is resolved,
    from these and nothing else.
-/
import BasicListing.Command.Run
import BasicListing.Proofs.JsonRange
import Mathlib.Data.List.Induction
import Mathlib.Data.List.Nodup

namespace BasicListing

/-! ## Members of objects -/

namespace Json.Value

/-- The value is an object in which the key stands for `x`.  Of several members with one key the
    last counts. -/
def Has (v : Value) (key : Text) (x : Value) : Prop :=
  ∃ before after, v = .object (before ++ (key, x) :: after) ∧ ∀ entry ∈ after, entry.1 ≠ key

/-- The members of an object with one more behind them. -/
theorem member?_concat (members : List (Text × Value)) (entry : Text × Value) (key : Text) :
    (object (members ++ [entry])).member? key =
      if entry.1 = key then some entry.2 else (object members).member? key := by
  simp [member?]

theorem has_concat {members : List (Text × Value)} {entry : Text × Value} {key : Text} {x : Value} :
    (object (members ++ [entry])).Has key x ↔
      entry = (key, x) ∨ entry.1 ≠ key ∧ (object members).Has key x := by
  constructor
  · rintro ⟨before, after, heq, hafter⟩
    rw [object.injEq] at heq
    rcases List.eq_nil_or_concat' after with rfl | ⟨after, last, rfl⟩
    · obtain ⟨-, hlast⟩ := List.append_inj' heq rfl
      exact .inl (List.cons.inj hlast).1
    · rw [← List.cons_append, ← List.append_assoc] at heq
      obtain ⟨hmembers, hlast⟩ := List.append_inj' heq rfl
      obtain rfl : entry = last := (List.cons.inj hlast).1
      exact .inr ⟨hafter entry (by simp), before, after, by rw [hmembers],
        fun e he => hafter e (by simp [he])⟩
  · rintro (rfl | ⟨hkey, before, after, heq, hafter⟩)
    · exact ⟨members, [], rfl, by simp⟩
    · rw [object.injEq] at heq
      refine ⟨before, after ++ [entry], by rw [heq]; simp, fun e he => ?_⟩
      rcases List.mem_append.1 he with he | he
      · exact hafter e he
      · rwa [List.mem_singleton.1 he]

theorem member?_eq_some_iff {v : Value} {key : Text} {x : Value} :
    v.member? key = some x ↔ v.Has key x := by
  cases v with
  | object members =>
    induction members using List.reverseRecOn with
    | nil => simp [member?, Has]
    | append_singleton members entry ih =>
      rw [member?_concat, has_concat, ← ih]
      split_ifs with hkey
      · simp [Prod.ext_iff, hkey]
      · simp [Prod.ext_iff, hkey]
  | _ => simp [member?, Has]

theorem has_iff_mem {members : List (Text × Value)} (hkeys : (members.map Prod.fst).Nodup)
    {key : Text} {x : Value} : (object members).Has key x ↔ (key, x) ∈ members := by
  constructor
  · rintro ⟨before, after, heq, -⟩
    rw [object.injEq] at heq
    simp [heq]
  · intro hmem
    obtain ⟨before, after, rfl⟩ := List.append_of_mem hmem
    refine ⟨before, after, rfl, fun entry he hkey => ?_⟩
    have hagain : key ∈ after.map Prod.fst := List.mem_map.2 ⟨entry, he, hkey⟩
    rw [List.map_append, List.map_cons, List.nodup_middle] at hkeys
    exact (List.nodup_cons.1 hkeys).1 (List.mem_append_right _ hagain)

theorem Has.inRange {v x : Value} {key : Text} (h : v.Has key x) (hv : v.InRange) : x.InRange := by
  obtain ⟨before, after, rfl, -⟩ := h
  cases hv with
  | object hmembers => exact hmembers (key, x) (by simp)

/-! ## The order of members -/

/-- The second value is the first with the members of some objects in another order.  These objects
    have no key twice. -/
inductive Rearranged : Value → Value → Prop
  | refl (v : Value) : Rearranged v v
  | members {members members' : List (Text × Value)} : members.Perm members' →
      (members.map Prod.fst).Nodup → Rearranged (.object members) (.object members')
  | member {before after : List (Text × Value)} {key : Text} {v v' : Value} : Rearranged v v' →
      Rearranged (.object (before ++ (key, v) :: after)) (.object (before ++ (key, v') :: after))
  | item {before after : List Value} {v v' : Value} : Rearranged v v' →
      Rearranged (.array (before ++ v :: after)) (.array (before ++ v' :: after))
  | trans {v v' v'' : Value} : Rearranged v v' → Rearranged v' v'' → Rearranged v v''

theorem Rearranged.symm {v v' : Value} (h : v.Rearranged v') : v'.Rearranged v := by
  induction h with
  | refl v => exact .refl v
  | members hperm hkeys => exact .members hperm.symm ((hperm.map Prod.fst).nodup_iff.1 hkeys)
  | member _ ih => exact .member ih
  | item _ ih => exact .item ih
  | trans _ _ ih ih' => exact .trans ih' ih

/-- What stands behind a member is looked at first. -/
theorem member?_append (before after : List (Text × Value)) (key : Text) :
    (object (before ++ after)).member? key =
      ((object after).member? key).or ((object before).member? key) := by
  induction after using List.reverseRecOn with
  | nil => simp [member?]
  | append_singleton after entry ih =>
    rw [← List.append_assoc, member?_concat, member?_concat, ih]
    split_ifs <;> rfl

/-- A rearranged object has the same members, which may be rearranged in turn. -/
theorem Rearranged.has {v v' : Value} (h : v.Rearranged v') {key : Text} {x : Value}
    (hx : v.Has key x) : ∃ x', v'.Has key x' ∧ x.Rearranged x' := by
  induction h generalizing x with
  | refl v => exact ⟨x, hx, .refl x⟩
  | members hperm hkeys =>
    rw [has_iff_mem hkeys, hperm.mem_iff] at hx
    exact ⟨x, (has_iff_mem ((hperm.map Prod.fst).nodup_iff.1 hkeys)).2 hx, .refl x⟩
  | @member before after k v v' hv ih =>
    have hmember : ∀ w, (object (before ++ (k, w) :: after)).member? key =
        ((object after).member? key).or
          (if k = key then some w else (object before).member? key) := by
      intro w
      rw [List.append_cons, member?_append, member?_concat]
    simp only [← member?_eq_some_iff, hmember] at hx ⊢
    generalize (object after).member? key = behind at hx ⊢
    cases behind with
    | some z => exact ⟨x, hx, .refl x⟩
    | none =>
      simp only [Option.none_or] at hx ⊢
      split_ifs at hx ⊢
      · obtain rfl := Option.some.inj hx
        exact ⟨v', rfl, hv⟩
      · exact ⟨x, hx, .refl x⟩
  | item =>
    obtain ⟨before, after, heq, -⟩ := hx
    cases heq
  | trans _ _ ih ih' =>
    obtain ⟨x', hx', hrearranged⟩ := ih hx
    obtain ⟨x'', hx'', hrearranged'⟩ := ih' hx'
    exact ⟨x'', hx'', hrearranged.trans hrearranged'⟩

end Json.Value

/-! ## Settings one by one -/

/-- The settings of a listing. -/
inductive Setting where
  | splitComments
  | alignAssignments
  | showBranchTargets
  | showHeader
  | onlyShowTargetLineNumbers
  | printWidth
  | commentWidth
  deriving DecidableEq, Repr

/-- The value of a setting. -/
def Settings.value (s : Settings) : Setting → Json.Value
  | .splitComments => .bool s.splitComments
  | .alignAssignments => .bool s.alignAssignments
  | .showBranchTargets => .bool s.showBranchTargets
  | .showHeader => .bool s.showHeader
  | .onlyShowTargetLineNumbers => .bool s.onlyShowTargetLineNumbers
  | .printWidth => .whole s.printWidth
  | .commentWidth => .whole s.commentWidth

theorem Settings.eq_of_value_eq {s s' : Settings}
    (h : ∀ setting, s.value setting = s'.value setting) : s = s' := by
  cases s
  cases s'
  simp only [Settings.mk.injEq]
  exact ⟨Json.Value.bool.inj (h .splitComments), Json.Value.bool.inj (h .alignAssignments),
    Json.Value.bool.inj (h .showBranchTargets), Json.Value.bool.inj (h .showHeader),
    Json.Value.bool.inj (h .onlyShowTargetLineNumbers), Json.Value.whole.inj (h .printWidth),
    Json.Value.whole.inj (h .commentWidth)⟩

namespace Setting

/-- The member of a JSON value in which the setting is looked for. -/
def category : Setting → String
  | .printWidth | .commentWidth => "wrap"
  | _ => "listing"

/-- The key of the setting there. -/
def key : Setting → String
  | .splitComments => "splitComments"
  | .alignAssignments => "alignAssignments"
  | .showBranchTargets => "showBranchTargets"
  | .showHeader => "showHeader"
  | .onlyShowTargetLineNumbers => "onlyShowTargetLineNumbers"
  | .printWidth => "print"
  | .commentWidth => "comment"

/-- The value has the type of the setting: a whole number from 0 to 2^64 - 1 for a width, and a
    truth value for the others. -/
def Accepts (setting : Setting) (v : Json.Value) : Prop :=
  match setting with
  | .printWidth | .commentWidth => ∃ n ≤ 18446744073709551615, v = .whole n
  | _ => ∃ b, v = .bool b

/-- The value of a setting that nobody has asked to change. -/
def default : Setting → Json.Value
  | .splitComments | .onlyShowTargetLineNumbers => .bool false
  | .alignAssignments | .showBranchTargets | .showHeader => .bool true
  | .printWidth => .whole 40
  | .commentWidth => .whole 60

/-- The value that an option of its own forces on a setting. -/
def forced? (o : ListingOptions) : Setting → Option Json.Value
  | .splitComments => if o.splitRem then some (.bool true) else none
  | .alignAssignments => if o.noAlign then some (.bool false) else none
  | .showBranchTargets => if o.noTargets then some (.bool false) else none
  | .showHeader => if o.noHeader then some (.bool false) else none
  | .onlyShowTargetLineNumbers => if o.onlyTargets then some (.bool true) else none
  | .printWidth => o.wrap.map .whole
  | .commentWidth => none

/-- The JSON value, if there is one, gives the setting a value: at its place, and of its type. -/
def GivenBy (setting : Setting) (root? : Option Json.Value) (v : Json.Value) : Prop :=
  ∃ root category, root? = some root ∧ root.Has setting.category.toList category ∧
    category.Has setting.key.toList v ∧ setting.Accepts v

/-- How a setting gets its value: by force, else from the JSON value, else by default. -/
inductive Resolves (setting : Setting) (o : ListingOptions) (root? : Option Json.Value) :
    Json.Value → Prop
  | forced {v : Json.Value} : setting.forced? o = some v → Resolves setting o root? v
  | given {v : Json.Value} : setting.forced? o = none → setting.GivenBy root? v →
      Resolves setting o root? v
  | default : setting.forced? o = none → (∀ v, ¬ setting.GivenBy root? v) →
      Resolves setting o root? setting.default

variable {setting : Setting} {o o' : ListingOptions} {root? root?' : Option Json.Value}

theorem GivenBy.unique {v v' : Json.Value} (h : setting.GivenBy root? v)
    (h' : setting.GivenBy root? v') : v = v' := by
  obtain ⟨root, category, rfl, hcategory, hv, -⟩ := h
  obtain ⟨_, category', ⟨⟩, hcategory', hv', -⟩ := h'
  rw [← Json.Value.member?_eq_some_iff] at hcategory hcategory' hv hv'
  obtain rfl := Option.some.inj (hcategory.symm.trans hcategory')
  exact Option.some.inj (hv.symm.trans hv')

/-- **Nothing else enters into a setting.** -/
theorem Resolves.unique {v v' : Json.Value} (h : setting.Resolves o root? v)
    (h' : setting.Resolves o' root?' v') (hforced : setting.forced? o = setting.forced? o')
    (hgiven : ∀ v, setting.GivenBy root? v ↔ setting.GivenBy root?' v) : v = v' := by
  cases h with
  | forced hv =>
    rw [hforced] at hv
    cases h' with
    | forced hv' => exact Option.some.inj (hv.symm.trans hv')
    | given hfree' _ => rw [hv] at hfree'; cases hfree'
    | default hfree' _ => rw [hv] at hfree'; cases hfree'
  | given hfree hv =>
    rw [hforced] at hfree
    cases h' with
    | forced hv' => rw [hfree] at hv'; cases hv'
    | given _ hv' => exact ((hgiven v).1 hv).unique hv'
    | default _ hnone => exact absurd ((hgiven v).1 hv) (hnone v)
  | default hfree hnone =>
    rw [hforced] at hfree
    cases h' with
    | forced hv' => rw [hfree] at hv'; cases hv'
    | given _ hv' => exact absurd ((hgiven v').2 hv') (hnone v')
    | default _ _ => rfl

theorem not_accepts_object (members : List (Text × Json.Value)) :
    ¬ setting.Accepts (.object members) := by
  cases setting <;> simp [Accepts]

theorem not_accepts_array (items : List Json.Value) : ¬ setting.Accepts (.array items) := by
  cases setting <;> simp [Accepts]

theorem resolves_getD {given : Option Json.Value}
    (hgiven : ∀ v, setting.GivenBy root? v ↔ given = some v) :
    setting.Resolves o root? ((setting.forced? o).getD (given.getD setting.default)) := by
  cases hforced : setting.forced? o with
  | some v => exact .forced hforced
  | none =>
    cases given with
    | some v => exact .given hforced ((hgiven v).2 rfl)
    | none => exact .default hforced fun v hv => nomatch (hgiven v).1 hv

/-- A value of the type of a setting has no members to be rearranged. -/
theorem Accepts.rearranged {v v' : Json.Value} (hv : setting.Accepts v) (h : v.Rearranged v') :
    v = v' := by
  induction h with
  | refl => rfl
  | members => exact absurd hv (not_accepts_object _)
  | member => exact absurd hv (not_accepts_object _)
  | item => exact absurd hv (not_accepts_array _)
  | trans _ _ ih ih' =>
    obtain rfl := ih hv
    exact ih' hv

theorem GivenBy.rearranged {root root' : Json.Value} (h : root.Rearranged root') {v : Json.Value}
    (hv : setting.GivenBy (some root) v) : setting.GivenBy (some root') v := by
  obtain ⟨_, category, ⟨⟩, hcategory, hkey, haccepts⟩ := hv
  obtain ⟨category', hcategory', hrearranged⟩ := h.has hcategory
  obtain ⟨v', hv', hsame⟩ := hrearranged.has hkey
  obtain rfl := haccepts.rearranged hsame
  exact ⟨root', category', rfl, hcategory', hv', haccepts⟩

end Setting

/-! ## Settings as they are read -/

section
variable {v x : Json.Value}

theorem map_bool?_eq_some_iff : v.bool?.map .bool = some x ↔ v = x ∧ ∃ b, v = .bool b := by
  cases v <;> simp [Json.Value.bool?]

theorem map_whole?_eq_some_iff (hv : v.InRange) :
    v.whole?.map .whole = some x ↔ v = x ∧ ∃ n ≤ 18446744073709551615, v = .whole n := by
  cases hv with
  | whole hn =>
    have hn' : _ ≤ 18446744073709551615 := hn
    simp [Json.Value.whole?, hn']
  | _ => simp [Json.Value.whole?]

/-- The value, if it has the type of the setting. -/
def Setting.take? (setting : Setting) (v : Json.Value) : Option Json.Value :=
  match setting with
  | .printWidth | .commentWidth => v.whole?.map .whole
  | _ => v.bool?.map .bool

theorem Setting.take?_eq_some_iff {setting : Setting} (hv : v.InRange) :
    setting.take? v = some x ↔ v = x ∧ setting.Accepts v := by
  cases setting with
  | printWidth => exact map_whole?_eq_some_iff hv
  | commentWidth => exact map_whole?_eq_some_iff hv
  | _ => exact map_bool?_eq_some_iff

end

theorem Setting.givenBy_iff {setting : Setting} {root v : Json.Value} (hroot : root.InRange) :
    setting.GivenBy (some root) v ↔
      (Settings.valueAt? root setting.category setting.key).bind setting.take? = some v := by
  simp only [Settings.valueAt?, Option.bind_eq_some_iff, Json.Value.member?_eq_some_iff]
  constructor
  · rintro ⟨_, category, ⟨⟩, hcategory, hkey, haccepts⟩
    have hv := hkey.inRange (hcategory.inRange hroot)
    exact ⟨v, ⟨category, hcategory, hkey⟩, (take?_eq_some_iff hv).2 ⟨rfl, haccepts⟩⟩
  · rintro ⟨w, ⟨category, hcategory, hkey⟩, htake⟩
    have hw := hkey.inRange (hcategory.inRange hroot)
    obtain ⟨rfl, haccepts⟩ := (take?_eq_some_iff hw).1 htake
    exact ⟨root, category, rfl, hcategory, hkey, haccepts⟩

/-- A member that is taken, with a value of its own in place of nothing. -/
theorem getD_bind_map {α : Type} (member? : Option Json.Value) (take? : Json.Value → Option α)
    (wrap : α → Json.Value) (a : α) :
    wrap ((member?.bind take?).getD a) =
      (member?.bind fun v => (take? v).map wrap).getD (wrap a) := by
  cases member? with
  | none => rfl
  | some v => cases h : take? v <;> simp [h]

theorem Settings.value_ofJson (root : Json.Value) (setting : Setting) :
    (ofJson root).value setting =
      ((valueAt? root setting.category setting.key).bind setting.take?).getD setting.default := by
  cases setting with
  | printWidth => exact getD_bind_map _ _ .whole 40
  | commentWidth => exact getD_bind_map _ _ .whole 60
  | splitComments => exact getD_bind_map _ _ .bool false
  | onlyShowTargetLineNumbers => exact getD_bind_map _ _ .bool false
  | alignAssignments => exact getD_bind_map _ _ .bool true
  | showBranchTargets => exact getD_bind_map _ _ .bool true
  | showHeader => exact getD_bind_map _ _ .bool true

/-- An option that turns something on, and one that turns it off. -/
theorem bool_or_eq (b flag : Bool) :
    Json.Value.bool (b || flag) = (if flag then some (.bool true) else none).getD (.bool b) := by
  cases flag <;> simp

theorem bool_and_not_eq (b flag : Bool) :
    Json.Value.bool (b && !flag) = (if flag then some (.bool false) else none).getD (.bool b) := by
  cases flag <;> simp

namespace ListingOptions

theorem value_override (o : ListingOptions) (s : Settings) (setting : Setting) :
    (o.override s).value setting = (setting.forced? o).getD (s.value setting) := by
  cases setting with
  | splitComments => exact bool_or_eq _ _
  | onlyShowTargetLineNumbers => exact bool_or_eq _ _
  | alignAssignments => exact bool_and_not_eq _ _
  | showBranchTargets => exact bool_and_not_eq _ _
  | showHeader => exact bool_and_not_eq _ _
  | printWidth =>
    simp only [override, Settings.value, Setting.forced?]
    cases o.wrap <;> rfl
  | commentWidth => rfl

/-- The JSON value that the options ask to be read, if they ask for one. -/
inductive Reads (o : ListingOptions) : Option Json.Value → Prop
  | nothing : o.config = none → Reads o none
  | value {text : Text} {root : Json.Value} : o.config = some text → Json.read text = .ok root →
      Reads o (some root)

theorem settings_of_value {o : ListingOptions} {text : Text} {root : Json.Value}
    (htext : o.config = some text) (hread : Json.read text = .ok root) :
    o.settings = .ok (o.override (Settings.ofJson root)) := by
  simp only [settings, htext, Settings.read, hread]
  rfl

theorem settings_of_fault {o : ListingOptions} {text : Text} {fault : Json.Fault}
    (htext : o.config = some text) (hread : Json.read text = .error fault) :
    o.settings = .error .badSettings := by
  simp only [settings, htext, Settings.read, hread]
  rfl

/-- **Each setting is resolved.** -/
theorem exists_settings {o : ListingOptions} {root? : Option Json.Value} (h : o.Reads root?) :
    ∃ s, o.settings = .ok s ∧ ∀ setting : Setting, setting.Resolves o root? (s.value setting) := by
  cases h with
  | nothing hnone =>
    refine ⟨o.override {}, by rw [settings, hnone], fun setting => ?_⟩
    have hdefault : Settings.value {} setting = Option.getD none setting.default := by
      cases setting <;> rfl
    rw [value_override, hdefault]
    refine Setting.resolves_getD fun v => ⟨?_, nofun⟩
    rintro ⟨_, _, ⟨⟩, -⟩
  | @value text root htext hread =>
    refine ⟨_, settings_of_value htext hread, fun setting => ?_⟩
    rw [value_override, Settings.value_ofJson]
    exact Setting.resolves_getD fun v => Setting.givenBy_iff (Json.inRange_of_read hread)

/-- Without settings there is no listing and no dump, whatever comes of the input. -/
theorem exists_failed {o : ListingOptions} {failure : Failure} (h : o.settings = .error failure)
    {invocation : Invocation} (hinvocation : invocation = .list o ∨ invocation = .dump o)
    (input : Except ReadFault (List UInt8)) : ∃ f, invocation.run input = .failed f := by
  have hprinter : o.printer = .error failure := by
    rw [printer, h]
    rfl
  have hlist : ∀ bytes, runList o bytes = .error failure := by
    intro bytes
    rw [runList, hprinter]
    rfl
  have hdump : ∀ bytes, runDump o bytes = .error failure := by
    intro bytes
    rw [runDump, hprinter]
    rfl
  have herror : ∃ f, invocation.execute input = .error f := by
    rcases hinvocation with rfl | rfl
    · rw [Invocation.execute]
      cases (Source.ofFile o.file).accept "list" input with
      | error f => exact ⟨f, rfl⟩
      | ok bytes => exact ⟨failure, hlist bytes⟩
    · rw [Invocation.execute]
      cases (Source.ofFile o.file).accept "dump" input with
      | error f => exact ⟨f, rfl⟩
      | ok bytes => exact ⟨failure, hdump bytes⟩
  obtain ⟨f, hf⟩ := herror
  exact ⟨f, by rw [Invocation.run, hf]⟩

/-- **Each setting is resolved on its own.**

    * Unless the JSON text cannot be read, a listing has settings.  Each of them is the value that
      its own option forces, else the value at its place in the JSON value if that has its type, and
      else its default.
    * So a setting is the same under all options and JSON values that agree on these two, however
      they differ elsewhere, and all settings are if members of objects change their order.
    * A text that cannot be read leaves no settings, whatever the other options are.  Then nothing
      is listed or dumped. -/
theorem settings_by_field (o : ListingOptions) :
    (∀ root?, o.Reads root? → ∃ s, o.settings = .ok s ∧
      (∀ setting : Setting, setting.Resolves o root? (s.value setting)) ∧
      (∀ o' root?' setting, o'.Reads root?' → setting.forced? o' = setting.forced? o →
        (∀ v, setting.GivenBy root?' v ↔ setting.GivenBy root? v) →
        ∃ s', o'.settings = .ok s' ∧ s'.value setting = s.value setting) ∧
      ∀ root root' text', root? = some root → root.Rearranged root' → Json.read text' = .ok root' →
        { o with config := some text' }.settings = .ok s) ∧
    ∀ text fault, o.config = some text → Json.read text = .error fault →
      o.settings = .error .badSettings ∧
      ∀ folder standardInput args,
        Invocation.read args = .ok (.list o) ∨ Invocation.read args = .ok (.dump o) →
        ∃ failure, runCommand folder standardInput args = .failed failure ∧
          (runCommand folder standardInput args).output = [] := by
  constructor
  · intro root? hroot
    obtain ⟨s, hs, hresolves⟩ := exists_settings hroot
    refine ⟨s, hs, hresolves, ?_, ?_⟩
    · intro o' root?' setting hroot' hforced hgiven
      obtain ⟨s', hs', hresolves'⟩ := exists_settings hroot'
      exact ⟨s', hs', (hresolves' setting).unique (hresolves setting) hforced hgiven⟩
    · rintro root root' text' rfl hrearranged hread
      obtain ⟨s', hs', hresolves'⟩ :=
        exists_settings (o := { o with config := some text' }) (.value rfl hread)
      obtain rfl : s' = s := Settings.eq_of_value_eq fun setting =>
        (hresolves' setting).unique (hresolves setting) (by cases setting <;> rfl)
          fun v => ⟨.rearranged hrearranged.symm, .rearranged hrearranged⟩
      exact hs'
  · intro text fault htext hread
    have hsettings := settings_of_fault htext hread
    refine ⟨hsettings, fun folder standardInput args hargs => ?_⟩
    have hinvocation : ∃ invocation, Invocation.read args = .ok invocation ∧
        (invocation = .list o ∨ invocation = .dump o) := by
      rcases hargs with h | h
      · exact ⟨_, h, .inl rfl⟩
      · exact ⟨_, h, .inr rfl⟩
    obtain ⟨invocation, hargs, hinvocation⟩ := hinvocation
    obtain ⟨failure, houtcome⟩ :
        ∃ failure, runCommand folder standardInput args = .failed failure := by
      rw [runCommand, hargs]
      exact exists_failed hsettings hinvocation _
    exact ⟨failure, houtcome, by rw [houtcome]; rfl⟩

/-- A header that is no truth value, a width of zero and a flag, the categories in either order;
    and a text that is no JSON. -/
theorem settings_by_field_eitherOrder :
    let shown : Json.Value :=
      .object [("splitComments".toList, .bool true), ("showHeader".toList, .whole 0)]
    let columns : Json.Value := .object [("print".toList, .whole 0)]
    let root : Json.Value := .object [("listing".toList, shown), ("wrap".toList, columns)]
    let o : ListingOptions :=
      { noAlign := true
        config := some ("\x7b\"listing\":\x7b\"splitComments\":true,\"showHeader\":0\x7d,".toList ++
          "\"wrap\":\x7b\"print\":0\x7d\x7d".toList) }
    let swapped : ListingOptions :=
      { o with
        config := some ("\x7b\"wrap\":\x7b\"print\":0\x7d,".toList ++
          "\"listing\":\x7b\"splitComments\":true,\"showHeader\":0\x7d\x7d".toList) }
    let broken : ListingOptions := { o with config := some "\x7blisting".toList }
    let args := ["list".toList, "--config=\x7blisting".toList, "--no-align".toList]
    let s : Settings := { splitComments := true, alignAssignments := false, printWidth := 0 }
    o.Reads (some root) ∧ o.settings = .ok s ∧ swapped.settings = .ok s ∧
    (∀ setting : Setting, setting.Resolves o (some root) (s.value setting)) ∧
    broken.settings = .error .badSettings ∧
    Invocation.read args = .ok (.list broken) ∧
    ∃ failure, runCommand ⟨[]⟩ [0, 0] args = .failed failure ∧
      (runCommand ⟨[]⟩ [0, 0] args).output = [] := by
  intro shown columns root o swapped broken args s
  have hreads : o.Reads (some root) := .value rfl rfl
  have hswapped : root.Rearranged (.object [("wrap".toList, columns), ("listing".toList, shown)]) :=
    .members (.swap _ _ _) (by decide)
  obtain ⟨s', hs', hresolves, -, hrearranged⟩ := (settings_by_field o).1 _ hreads
  obtain rfl : s = s' := Except.ok.inj hs'
  obtain ⟨hbroken, hfailed⟩ := (settings_by_field broken).2 _ .malformed rfl rfl
  exact ⟨hreads, hs', hrearranged _ _ _ rfl hswapped rfl, hresolves, hbroken, rfl,
    hfailed _ _ args (.inl rfl)⟩

end ListingOptions

end BasicListing
