import Mathlib.Data.Finset.Dedup
import Mathlib.Data.Finset.SDiff
import LetShell.Proofs.Options.Fitness
import LetShell.Proofs.Options.Typed

/-!
# Sets and lists of items

The value of a set option is a part of its allowed values, written in declared
order. So its text is settled by its items, whatever led to them, and changes
act on it as operations on sets. A string list keeps its items in the order in
which they came: adding puts the new ones after the old ones, removing closes
the gaps. A text is rejected for an item that is not allowed, and only then.
-/

set_option autoImplicit false

namespace LetShell

namespace Text

theorem filter_mem_sublist {xs values : List Text} (h : values.Nodup) (hs : xs.Sublist values) :
    values.filter (· ∈ xs) = xs := by
  induction hs with
  | slnil => rfl
  | @cons xs values v hs ih =>
    obtain ⟨hv, hvalues⟩ := List.nodup_cons.mp h
    have hout : v ∉ xs := fun hm => hv (hs.mem hm)
    rw [List.filter_cons_of_neg (by simpa using hout), ih hvalues]
  | @cons_cons xs values v hs ih =>
    obtain ⟨hv, hvalues⟩ := List.nodup_cons.mp h
    have hsame : values.filter (· ∈ v :: xs) = values.filter (· ∈ xs) := by
      apply List.filter_congr
      intro x hx
      have hne : x ≠ v := fun he => hv (he ▸ hx)
      simp [hne]
    rw [List.filter_cons_of_pos (by simp), hsame, ih hvalues]

theorem distinct_pairwise (ts : List Text) :
    (distinct ts).Pairwise fun a b => ts.idxOf a < ts.idxOf b := by
  induction ts with
  | nil => exact .nil
  | cons t ts ih =>
    have hbehind : ∀ a ∈ (distinct ts).filter (· ≠ t), (t :: ts).idxOf a = ts.idxOf a + 1 := by
      intro a ha
      have hne : a ≠ t := by simpa using (List.mem_filter.mp ha).2
      exact List.idxOf_cons_ne ts hne.symm
    refine List.pairwise_cons.mpr ⟨?_, ?_⟩
    · intro a ha
      rw [hbehind a ha, List.idxOf_cons_self]
      exact Nat.succ_pos _
    · refine (ih.filter _).imp_of_mem ?_
      intro a b ha hb hab
      rw [hbehind a ha, hbehind b hb]
      exact Nat.succ_lt_succ hab

end Text

namespace Change

def onSet : Change → Finset Text → Finset Text → Finset Text
  | .set, _, new => new
  | .add, old, new => old ∪ new
  | .remove, old, new => old \ new

def onList : Change → List Text → List Text → List Text
  | .set, _, new => new
  | .add, old, new => old ++ new.filter (!old.contains ·)
  | .remove, old, new => old.filter (!new.contains ·)

theorem onList_add (old new : List Text) : onList .add old new = old ++ new.filter (· ∉ old) := by
  simp only [onList, List.contains_eq_mem, decide_not]

theorem onList_remove (old new : List Text) : onList .remove old new = old.filter (· ∉ new) := by
  simp only [onList, List.contains_eq_mem, decide_not]

theorem onSet_twice (how : Change) (old new : Finset Text) :
    how.onSet (how.onSet old new) new = how.onSet old new := by
  cases how <;> ext x <;> simp only [onSet, Finset.mem_union, Finset.mem_sdiff] <;> tauto

theorem onList_add_add (old new : List Text) :
    onList .add (onList .add old new) new = onList .add old new := by
  have hnone : new.filter (· ∉ old ++ new.filter (· ∉ old)) = [] := by
    rw [List.filter_eq_nil_iff]
    intro x hx
    by_cases ho : x ∈ old <;> simp [hx, ho]
  rw [onList_add old new, onList_add]
  exact List.append_right_eq_self.mpr hnone

theorem onList_remove_add (old new : List Text) :
    onList .remove (onList .add old new) new = onList .remove old new := by
  have hnone : (new.filter (· ∉ old)).filter (· ∉ new) = [] := by
    rw [List.filter_eq_nil_iff]
    intro x hx
    simp [(List.mem_filter.mp hx).1]
  rw [onList_add, onList_remove, onList_remove, List.filter_append, hnone, List.append_nil]

theorem listed_onList (how : Change) {old new : List Text} (ho : Text.Listed old)
    (hn : Text.Listed new) : Text.Listed (how.onList old new) := by
  cases how with
  | set => exact hn
  | add =>
    rw [onList_add]
    exact Text.listed_append ho hn
  | remove => exact Text.listed_sublist ho List.filter_sublist

end Change

namespace Definition

/-- The definition after a change, which is the same if the change fails. -/
def after (d : Definition) (how : Change) (t : Text) : Definition :=
  match d.changed how t with
  | .ok v => d.holding v
  | .error _ => d

def afterAll (d : Definition) : List (Change × Text) → Definition
  | [] => d
  | (how, t) :: cs => (d.after how t).afterAll cs

def items (d : Definition) : List Text :=
  match d.value with
  | .text t => t.items
  | _ => []

def written (d : Definition) (s : Finset Text) : Text :=
  Text.ofItems (d.values.filter (· ∈ s))

/-- A set option with allowed values that can be told apart, and a part of them
in declared order as its value. -/
structure Choice (d : Definition) : Prop where
  type : d.type = .set
  values : Text.Listed d.values
  proper : d.Proper

section
variable {d : Definition} {how : Change} {t : Text} {v : OptionValue}

theorem after_of_changed (h : d.changed how t = .ok v) : d.after how t = d.holding v := by
  rw [after, h]

theorem afterAll_holding (d : Definition) (cs : List (Change × Text)) :
    d.afterAll cs = d.holding (d.afterAll cs).value := by
  induction cs generalizing d with
  | nil => rfl
  | cons c cs ih =>
    obtain ⟨how, t⟩ := c
    have hone : ∀ w, (d.after how t).holding w = d.holding w := by
      intro w
      unfold after
      split <;> rfl
    rw [afterAll, ih, hone]
    rfl

theorem values_after (d : Definition) (how : Change) (t : Text) :
    (d.after how t).values = d.values := by
  unfold after
  split <;> rfl

theorem items_ofItems {xs : List Text} (hx : Text.Listed xs) (hv : d.value = .text (Text.ofItems xs)) :
    d.items = xs := by
  rw [items, hv]
  exact Text.items_ofItems hx

end

section
variable {d : Definition} {how : Change} {t : Text}

theorem Choice.exists_items (h : d.Choice) :
    ∃ xs, Text.Listed xs ∧ xs.Sublist d.values ∧ d.value = .text (Text.ofItems xs) := by
  obtain ⟨htype, -, hproper⟩ := h
  obtain ⟨name, type, value, scope, values⟩ := d
  cases htype
  cases hproper with
  | set hx hs => exact ⟨_, hx, hs, rfl⟩

theorem Choice.filter_items (h : d.Choice) : d.values.filter (· ∈ d.items) = d.items := by
  obtain ⟨xs, hx, hs, hv⟩ := h.exists_items
  rw [items_ofItems hx hv]
  exact Text.filter_mem_sublist h.values.nodup hs

theorem Choice.value_eq (h : d.Choice) : d.value = .text (d.written d.items.toFinset) := by
  obtain ⟨xs, hx, hs, hv⟩ := h.exists_items
  simp only [written, List.mem_toFinset, h.filter_items]
  rw [items_ofItems hx hv, hv]

theorem fits_choice (h : d.type = .set) : d.fits how t = true ↔ ∀ x ∈ t.items, x ∈ d.values := by
  have hempty : t.items.filter (· ∉ d.values) = [] ↔ ∀ x ∈ t.items, x ∈ d.values := by
    simp [List.filter_eq_nil_iff]
  rw [← hempty]
  simp only [fits, h, readItems]
  split
  · rename_i hnone
    exact iff_of_true rfl hnone
  · rename_i hsome
    exact iff_of_false Bool.false_ne_true hsome

theorem Choice.changed_ok (h : d.Choice) (how : Change) (ht : ∀ x ∈ t.items, x ∈ d.values) :
    d.changed how t = .ok (.text (d.written (how.onSet d.items.toFinset t.items.toFinset))) := by
  obtain ⟨xs, hx, hs, hv⟩ := h.exists_items
  have hread : d.readItems t = .ok t.items := by
    have hnone : t.items.filter (· ∉ d.values) = [] := by simpa [List.filter_eq_nil_iff] using ht
    simp only [readItems, hnone, if_true]
  have hitems := items_ofItems hx hv
  have hcurrent : d.currentItems = .ok xs := by
    rw [currentItems, hv]
    exact congrArg Except.ok (Text.items_ofItems hx)
  cases how with
  | set =>
    simp only [changed, set, h.type, hread, arranged, written, Change.onSet, List.mem_toFinset]
    rfl
  | add =>
    simp only [changed, add, h.type, hread, hcurrent, arranged, written, Change.onSet, hitems,
      Finset.mem_union, List.mem_toFinset, List.mem_append]
    rfl
  | remove =>
    have hkept : xs.filter (· ∉ t.items) = d.values.filter (· ∈ xs.toFinset \ t.items.toFinset) := by
      conv => lhs; rw [← Text.filter_mem_sublist h.values.nodup hs, List.filter_filter]
      apply List.filter_congr
      intro x _
      simp [Bool.and_comm]
    simp only [changed, remove, h.type, hread, hcurrent, written, Change.onSet, hitems, ← hkept]
    rfl

theorem Choice.changed_error (h : d.Choice) (how : Change) (ht : ∃ x ∈ t.items, x ∉ d.values) :
    ∃ x, d.changed how t = .error (.error x) := by
  rcases changed_judged d t how with ⟨f, hf⟩ | ⟨hfit, -⟩ | ⟨-, hx⟩
  · exact absurd hf (changed_ne_fault (typed_of_proper h.proper) how t)
  · obtain ⟨x, hx, hno⟩ := ht
    exact absurd ((fits_choice h.type).mp hfit x hx) hno
  · exact hx

theorem Choice.after (h : d.Choice) (how : Change) (t : Text) : (d.after how t).Choice := by
  unfold Definition.after
  split
  · rename_i v hv
    exact ⟨h.type, h.values, proper_changed h.proper (fun _ => h.values) hv⟩
  · exact h

theorem Choice.afterAll (h : d.Choice) (cs : List (Change × Text)) : (d.afterAll cs).Choice := by
  induction cs generalizing d with
  | nil => exact h
  | cons c cs ih => exact ih (h.after c.1 c.2)

theorem Choice.items_after (h : d.Choice) (how : Change) (t : Text) :
    (d.after how t).items.toFinset =
      if ∀ x ∈ t.items, x ∈ d.values then how.onSet d.items.toFinset t.items.toFinset
      else d.items.toFinset := by
  split
  · rename_i ht
    have hchanged := h.changed_ok how ht
    have hpart : (d.values.filter (· ∈ how.onSet d.items.toFinset t.items.toFinset)).Sublist d.values :=
      List.filter_sublist
    rw [after_of_changed hchanged, items_ofItems (Text.listed_sublist h.values hpart) rfl]
    have hold : ∀ x ∈ d.items, x ∈ d.values := by
      intro x hx
      rw [← h.filter_items] at hx
      exact (List.mem_filter.mp hx).1
    ext x
    rw [List.mem_toFinset, List.mem_filter, decide_eq_true_eq, and_iff_right_iff_imp]
    cases how with
    | set => exact fun hx => ht x (List.mem_toFinset.mp hx)
    | add =>
      simp only [Change.onSet, Finset.mem_union, List.mem_toFinset]
      exact fun hx => hx.elim (hold x) (ht x)
    | remove =>
      simp only [Change.onSet, Finset.mem_sdiff, List.mem_toFinset]
      exact fun hx => hold x hx.1
  · rename_i ht
    obtain ⟨x, hx⟩ := h.changed_error how (by simpa using ht)
    rw [Definition.after, hx]

theorem Choice.afterAll_eq (h : d.Choice) {cs cs' : List (Change × Text)}
    (hs : (d.afterAll cs).items.toFinset = (d.afterAll cs').items.toFinset) :
    d.afterAll cs = d.afterAll cs' := by
  have hvalues : (d.afterAll cs).values = (d.afterAll cs').values := by
    rw [afterAll_holding d cs, afterAll_holding d cs']
    rfl
  rw [afterAll_holding d cs, afterAll_holding d cs', (h.afterAll cs).value_eq,
    (h.afterAll cs').value_eq, written, written, hvalues, hs]

theorem Choice.add_comm (h : d.Choice) (t u : Text) :
    d.afterAll [(.add, t), (.add, u)] = d.afterAll [(.add, u), (.add, t)] := by
  apply h.afterAll_eq
  simp only [Definition.afterAll, (h.after _ _).items_after, h.items_after, values_after]
  split_ifs with hu ht
  · exact Finset.union_right_comm d.items.toFinset t.items.toFinset u.items.toFinset
  · rfl
  · rfl
  · rfl

theorem Choice.twice (h : d.Choice) (how : Change) (t : Text) :
    d.afterAll [(how, t), (how, t)] = d.afterAll [(how, t)] := by
  apply h.afterAll_eq
  simp only [Definition.afterAll, (h.after _ _).items_after, h.items_after, values_after]
  split
  · exact Change.onSet_twice how _ _
  · rfl

theorem Choice.set_eq (h : d.Choice) {t u : Text} (hs : t.items.toFinset = u.items.toFinset) :
    d.after .set t = d.after .set u := by
  have hmem : ∀ x, x ∈ t.items ↔ x ∈ u.items := by
    intro x
    rw [← List.mem_toFinset, hs, List.mem_toFinset]
  change d.afterAll [(.set, t)] = d.afterAll [(.set, u)]
  apply h.afterAll_eq
  simp only [Definition.afterAll, h.items_after, hmem, hs]

end

section
variable {d : Definition} {old : Text} {how : Change} {t : Text}

theorem listed_present (d : Definition) : Text.Listed d.items := by
  unfold items
  split
  · exact Text.listed_items _
  · exact ⟨List.nodup_nil, nofun, nofun⟩

theorem changed_list (htype : d.type = .stringList) (hv : d.value = .text old) (how : Change)
    (t : Text) :
    d.changed how t = .ok (.text (Text.ofItems (how.onList d.items t.items))) := by
  have hcurrent : d.currentItems = .ok d.items := by
    rw [currentItems, items, hv]
    rfl
  cases how with
  | set => simp only [changed, set, htype, lift, Change.onList]
  | add =>
    simp only [changed, add, htype, hcurrent, Change.onList_add]
    rfl
  | remove =>
    simp only [changed, remove, htype, hcurrent, Change.onList_remove]
    rfl

theorem after_list (htype : d.type = .stringList) (hv : d.value = .text old) (how : Change)
    (t : Text) : d.after how t = d.holding (.text (Text.ofItems (how.onList d.items t.items))) :=
  after_of_changed (changed_list htype hv how t)

theorem items_after_list (htype : d.type = .stringList) (hv : d.value = .text old) (how : Change)
    (t : Text) : (d.after how t).items = how.onList d.items t.items := by
  rw [after_list htype hv]
  exact items_ofItems (Change.listed_onList how (listed_present d) (Text.listed_items t)) rfl

theorem after_after_list (htype : d.type = .stringList) (hv : d.value = .text old)
    (how how' : Change) (t t' : Text) : d.afterAll [(how, t), (how', t')] =
      d.holding (.text (Text.ofItems (how'.onList (how.onList d.items t.items) t'.items))) := by
  have hitems := items_after_list htype hv how t
  rw [after_list htype hv] at hitems
  rw [afterAll, afterAll, afterAll, after_list htype hv, after_list (by exact htype) rfl, hitems]
  rfl

end

end Definition

namespace OptionStore

def changes (s : OptionStore) (scope : Scope) (name : Text) : List (Change × Text) → OptionStore
  | [] => s
  | (how, t) :: cs =>
    match s.lookup scope name with
    | some d => (s.change d how t).1.changes scope name cs
    | none => s

/-- What changes to a set option come to. -/
structure ChoiceLaws (s : OptionStore) (d : Definition) : Prop where
  stored : ∀ cs, (s.changes d.scope d.name cs).lookup d.scope d.name = some (d.afterAll cs)
  rejected : ∀ how t,
    (∃ x, s.change d how t = (s, .error (.error x))) ↔ ∃ x ∈ t.items, x ∉ d.values
  accepted : ∀ how t, (∀ x ∈ t.items, x ∈ d.values) → (s.change d how t).2 = .ok () ∧
    (d.after how t).items.toFinset = how.onSet d.items.toFinset t.items.toFinset
  kept : ∀ cs, (d.afterAll cs).Choice
  written : ∀ cs, (d.afterAll cs).value = .text (d.written (d.afterAll cs).items.toFinset)
  settled : ∀ cs cs', (d.afterAll cs).items.toFinset = (d.afterAll cs').items.toFinset →
    d.afterAll cs = d.afterAll cs'
  add_comm : ∀ t u, d.afterAll [(.add, t), (.add, u)] = d.afterAll [(.add, u), (.add, t)]
  twice : ∀ how t, d.afterAll [(how, t), (how, t)] = d.afterAll [(how, t)]
  set_eq : ∀ t u : Text, t.items.toFinset = u.items.toFinset → d.after .set t = d.after .set u

/-- What changes to a string list come to. -/
structure ListLaws (s : OptionStore) (d : Definition) : Prop where
  stored : ∀ cs, (s.changes d.scope d.name cs).lookup d.scope d.name = some (d.afterAll cs)
  accepted : ∀ how t, (s.change d how t).2 = .ok ()
  written : ∀ how t, (d.after how t).value = .text (Text.ofItems (d.after how t).items)
  added : ∀ t, (d.after .add t).items = d.items ++ t.items.filter (· ∉ d.items)
  removed : ∀ t, (d.after .remove t).items = d.items.filter (· ∉ t.items)
  add_twice : ∀ t, d.afterAll [(.add, t), (.add, t)] = d.afterAll [(.add, t)]
  add_remove : ∀ t, d.afterAll [(.add, t), (.remove, t)] = d.afterAll [(.remove, t)]

section
variable {s : OptionStore} {d : Definition}

theorem lookup_change_same (hd : s.lookup d.scope d.name = some d) (how : Change) (t : Text) :
    (s.change d how t).1.lookup d.scope d.name = some (d.after how t) := by
  cases hc : d.changed how t with
  | ok v =>
    simp only [change, Definition.after, hc]
    rw [lookup_assign, hd, Option.map_some, if_pos ⟨rfl, rfl⟩]
    rfl
  | error x =>
    simp only [change, Definition.after, hc]
    exact hd

theorem lookup_changes (hd : s.lookup d.scope d.name = some d) (cs : List (Change × Text)) :
    (s.changes d.scope d.name cs).lookup d.scope d.name = some (d.afterAll cs) := by
  induction cs generalizing s d with
  | nil => exact hd
  | cons c cs ih =>
    obtain ⟨how, t⟩ := c
    have hone := lookup_change_same hd how t
    simp only [changes, hd, Definition.afterAll]
    obtain ⟨v, hv⟩ : ∃ v, d.after how t = d.holding v := ⟨_, d.afterAll_holding [(how, t)]⟩
    rw [hv] at hone ⊢
    exact ih (d := d.holding v) hone

theorem choiceLaws (hd : s.lookup d.scope d.name = some d) (h : d.Choice) : ChoiceLaws s d where
  stored := lookup_changes hd
  rejected := by
    intro how t
    constructor
    · rintro ⟨x, hx⟩
      by_contra hall
      have hchanged := h.changed_ok how (t := t) (by simpa using hall)
      simp only [change, hchanged] at hx
      cases congrArg Prod.snd hx
    · intro ht
      obtain ⟨x, hx⟩ := h.changed_error how ht
      exact ⟨x, by simp only [change, hx]⟩
  accepted := by
    intro how t ht
    refine ⟨by simp only [change, h.changed_ok how ht], ?_⟩
    rw [h.items_after, if_pos ht]
  kept := h.afterAll
  written := by
    intro cs
    have hvalues : (d.afterAll cs).values = d.values := by
      rw [d.afterAll_holding cs]
      rfl
    rw [(h.afterAll cs).value_eq, Definition.written, hvalues]
    rfl
  settled := fun _ _ => h.afterAll_eq
  add_comm := h.add_comm
  twice := h.twice
  set_eq := fun _ _ => h.set_eq

theorem listLaws (hd : s.lookup d.scope d.name = some d) (htype : d.type = .stringList)
    {old : Text} (hv : d.value = .text old) : ListLaws s d where
  stored := lookup_changes hd
  accepted := fun how t => by simp only [change, Definition.changed_list htype hv]
  written := by
    intro how t
    rw [Definition.items_after_list htype hv, Definition.after_list htype hv]
    rfl
  added := by
    intro t
    rw [Definition.items_after_list htype hv, Change.onList_add]
  removed := by
    intro t
    rw [Definition.items_after_list htype hv, Change.onList_remove]
  add_twice := by
    intro t
    rw [Definition.after_after_list htype hv, Change.onList_add_add]
    exact (Definition.after_list htype hv .add t).symm
  add_remove := by
    intro t
    rw [Definition.after_after_list htype hv, Change.onList_remove_add]
    exact (Definition.after_list htype hv .remove t).symm

end

/-- In any store: changes to a set option, with allowed values that can be told
apart and a part of them in declared order as its value, are operations on the
set of its items, and its text is settled by that set. Changes to a string list
keep the order of its items, whatever text it holds. The items of a text stand
in the order in which they first occur. -/
theorem item_changes (s : OptionStore) :
    (∀ d, s.lookup d.scope d.name = some d → d.Choice → ChoiceLaws s d) ∧
    (∀ d old, s.lookup d.scope d.name = some d → d.type = .stringList → d.value = .text old →
      ListLaws s d) ∧
    (∀ t : Text, t.items.Nodup ∧ (∀ x, x ∈ t.items ↔ x ∈ Text.pieces ',' t ∧ x ≠ []) ∧
      t.items.Pairwise fun x y =>
        ((Text.pieces ',' t).filter (· ≠ [])).idxOf x <
          ((Text.pieces ',' t).filter (· ≠ [])).idxOf y) := by
  refine ⟨fun d => choiceLaws, fun d old hd htype hv => listLaws hd htype hv, ?_⟩
  intro t
  refine ⟨Text.items_nodup t, ?_, Text.distinct_pairwise _⟩
  intro x
  rw [Text.items, Text.mem_distinct, List.mem_filter, decide_eq_true_eq]

theorem item_changes_sample :
    ChoiceLaws standard
        ⟨"cpoptions".toList, .set, .text "f,s".toList, .global, [['f'], ['s'], ['t']]⟩ ∧
      ListLaws standard ⟨"tags".toList, .stringList, .text "tags".toList, .global, []⟩ := by
  have hset : Text.Listed [['f'], ['s']] := by decide
  exact ⟨(item_changes standard).1 _ rfl ⟨rfl, by decide, .set hset (by decide)⟩,
    (item_changes standard).2.1 _ _ rfl rfl rfl⟩

example :
    ((standard.changes .global "cpoptions".toList [(.remove, "f".toList), (.add, "t,f".toList)]).lookup
        .global "cpoptions".toList).map (·.value) = some (.text "f,s,t".toList) ∧
      ((standard.changes .global "tags".toList [(.add, ",b,a,b,tags".toList)]).lookup
        .global "tags".toList).map (·.value) = some (.text "tags,b,a".toList) := by
  decide +kernel

end OptionStore

end LetShell
