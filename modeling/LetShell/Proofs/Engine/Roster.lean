import LetShell.Proofs.Engine.Filing

/-!
# The roster after startup

Entries are read in groups whose cut names compare equal. The first reading of a
group that is not refused a record founds the group's record, and every later
one gives it a new value. So an empty registry ends up with one record for each
founder, in the order of the founders and without a gap, and the readings that
are lost are those refused a record before their group has one.
-/

set_option autoImplicit false

namespace LetShell.Engine

/-- The first reading of each group that is not refused a record, in order. -/
def founders (e : Engine) : List (Text × Text) → List (Text × Text)
  | [] => []
  | p :: ps =>
    if e.registry.refuses p.1 then founders e ps
    else p :: (founders e ps).filter fun q => e.registry.key q.1 ≠ e.registry.key p.1

def lastValue (e : Engine) (ps : List (Text × Text)) (name : Text) : Text :=
  ((e.namesakes ps name).getLast?.map Prod.snd).getD []

def founded (e : Engine) (ps : List (Text × Text)) (i : Nat) (name : Text) : Record where
  serial := e.registry.next + i
  name := name
  value := e.lastValue ps name
  initial := e.lastValue ps name
  inherited := true
  removed := false

def roster (e : Engine) (ps : List (Text × Text)) : List (Option Record) :=
  (e.founders ps).mapIdx fun i p => some (e.founded ps i p.1)

/-- Whether reading `i` is refused a record while its group has none. -/
def lost (e : Engine) (ps : List (Text × Text)) (i : Nat) : Bool :=
  ps[i]?.any fun p => e.registry.refuses p.1 &&
    (e.namesakes (ps.take i) p.1).all fun q => e.registry.refuses q.1

def losses (e : Engine) (ps : List (Text × Text)) : Nat := (List.range ps.length).countP (e.lost ps)

section
variable {e : Engine} {ps : List (Text × Text)} {p q : Text × Text} {name value entry : Text}

theorem reading?_eq_some_iff : e.reading? entry = some (name, value) ↔
    ∃ before, before ≠ [] ∧ '=' ∉ before ∧ entry = before ++ '=' :: value ∧
      name = Text.upTo e.nameMax before := by
  constructor
  · intro h
    obtain ⟨⟨before, after⟩, hentry, hp⟩ := Option.map_eq_some_iff.mp h
    cases hp
    obtain ⟨hcut, hne⟩ := Option.filter_eq_some_iff.mp hentry
    obtain ⟨htext, hplain⟩ := Text.cutAt_eq_some hcut
    exact ⟨before, by simpa using hne, hplain, htext, rfl⟩
  · rintro ⟨before, hne, hplain, rfl, rfl⟩
    rw [reading?, entry?_append hne hplain]
    rfl

theorem mem_founders : p ∈ e.founders ps ↔
    (e.namesakes ps p.1).find? (fun q => !e.registry.refuses q.1) = some p := by
  induction ps with
  | nil => simp [founders, namesakes]
  | cons x ps ih =>
    by_cases hx : e.registry.key x.1 = e.registry.key p.1
    · have hnames : e.namesakes (x :: ps) p.1 = x :: e.namesakes ps p.1 := by simp [namesakes, hx]
      rw [hnames]
      cases hr : e.registry.refuses x.1 with
      | true =>
        rw [founders, if_pos hr, List.find?_cons_of_neg (by simp [hr])]
        exact ih
      | false =>
        rw [founders, if_neg (by simp [hr]), List.find?_cons_of_pos (by simp [hr])]
        simp [hx, eq_comm]
    · have hnames : e.namesakes (x :: ps) p.1 = e.namesakes ps p.1 := by simp [namesakes, hx]
      have hne : p ≠ x := fun h => hx (by rw [h])
      rw [hnames, ← ih, founders]
      split
      · rfl
      · rw [List.mem_cons, List.mem_filter, decide_eq_true_iff]
        exact ⟨fun h => (h.resolve_left hne).1, fun h => .inr ⟨h, Ne.symm hx⟩⟩

theorem not_refused_of_mem_founders (h : p ∈ e.founders ps) : e.registry.refuses p.1 = false := by
  simpa using List.find?_some (mem_founders.mp h)

theorem founders_keys : (e.founders ps).Pairwise fun p q =>
    e.registry.key p.1 ≠ e.registry.key q.1 := by
  induction ps with
  | nil => exact .nil
  | cons x ps ih =>
    rw [founders]
    split
    · exact ih
    · refine List.pairwise_cons.mpr ⟨?_, ih.filter _⟩
      intro q hq
      exact (of_decide_eq_true (List.mem_filter.mp hq).2).symm

theorem founders_index {i j : Nat} (hp : (e.founders ps)[i]? = some p)
    (hq : (e.founders ps)[j]? = some q) (hk : e.registry.key p.1 = e.registry.key q.1) : i = j := by
  have hpairs : (e.founders ps).Pairwise fun p q => e.registry.key p.1 ≠ e.registry.key q.1 :=
    founders_keys
  have hkeys := List.pairwise_iff_getElem.mp hpairs
  obtain ⟨hi, rfl⟩ := List.getElem?_eq_some_iff.mp hp
  obtain ⟨hj, rfl⟩ := List.getElem?_eq_some_iff.mp hq
  rcases Nat.lt_trichotomy i j with hlt | heq | hgt
  · exact absurd hk (hkeys i j hi hj hlt)
  · exact heq
  · exact absurd hk.symm (hkeys j i hj hi hgt)

theorem founders_order : (e.founders ps).Pairwise fun p q => ps.idxOf p < ps.idxOf q := by
  induction ps with
  | nil => exact .nil
  | cons x ps ih =>
    have hlater : ∀ q ∈ e.founders ps, q ≠ x → (x :: ps).idxOf q = ps.idxOf q + 1 :=
      fun q _ hq => List.idxOf_cons_ne ps hq.symm
    rw [founders]
    split
    · rename_i hr
      refine ih.imp_of_mem ?_
      intro p q hp hq hpq
      have hnot : ∀ y ∈ e.founders ps, y ≠ x := by
        rintro y hy rfl
        rw [not_refused_of_mem_founders hy] at hr
        cases hr
      rw [hlater p hp (hnot p hp), hlater q hq (hnot q hq)]
      omega
    · have hnot : ∀ y ∈ (e.founders ps).filter fun q => e.registry.key q.1 ≠ e.registry.key x.1,
          y ∈ e.founders ps ∧ y ≠ x := by
        intro y hy
        obtain ⟨hmem, hkey⟩ := List.mem_filter.mp hy
        refine ⟨hmem, ?_⟩
        rintro rfl
        simp at hkey
      refine List.pairwise_cons.mpr ⟨?_, (ih.filter _).imp_of_mem ?_⟩
      · intro q hq
        obtain ⟨hmem, hne⟩ := hnot q hq
        rw [hlater q hmem hne, List.idxOf_cons_self]
        omega
      · intro p q hp hq hpq
        obtain ⟨hpm, hpn⟩ := hnot p hp
        obtain ⟨hqm, hqn⟩ := hnot q hq
        rw [hlater p hpm hpn, hlater q hqm hqn]
        omega

theorem founders_append (ps qs : List (Text × Text)) :
    e.founders (ps ++ qs) = e.founders ps ++ (e.founders qs).filter fun q =>
      (e.founders ps).all fun p => e.registry.key q.1 ≠ e.registry.key p.1 := by
  induction ps with
  | nil => simp [founders]
  | cons x ps ih =>
    rw [List.cons_append, founders, founders, ih]
    split
    · rfl
    · rw [List.filter_append, List.filter_filter, List.cons_append]
      congr 2
      apply List.filter_congr
      intro q _
      by_cases hq : e.registry.key q.1 = e.registry.key x.1
      · simp [hq]
      · -- A founder that shares the group of `q` is none of the namesakes of `x`.
        have hall : ((e.founders ps).filter fun y => e.registry.key y.1 ≠ e.registry.key x.1).all
              (fun p => e.registry.key q.1 ≠ e.registry.key p.1) =
            (e.founders ps).all fun p => e.registry.key q.1 ≠ e.registry.key p.1 := by
          rw [List.all_filter]
          apply congrArg fun f => List.all (e.founders ps) f
          funext y
          by_cases hy : e.registry.key q.1 = e.registry.key y.1
          · simp [← hy, hq]
          · simp [hy]
        rw [List.all_cons, hall]

theorem founders_old
    (h : e.registry.refuses p.1 = true ∨
      ∃ q ∈ e.founders ps, e.registry.key q.1 = e.registry.key p.1) :
    e.founders (ps ++ [p]) = e.founders ps := by
  have hnone : (e.founders [p]).filter (fun q => (e.founders ps).all fun f =>
      e.registry.key q.1 ≠ e.registry.key f.1) = [] := by
    rcases h with h | ⟨q, hq, hk⟩
    · simp [founders, h]
    · rw [List.filter_eq_nil_iff]
      intro y hy hall
      have hyp : y = p := by
        rw [founders] at hy
        split at hy <;> simp_all [founders]
      have := List.all_eq_true.mp hall q hq
      simp [hyp, hk] at this
  rw [founders_append, hnone, List.append_nil]

theorem founders_new (hr : e.registry.refuses p.1 = false)
    (h : ∀ q ∈ e.founders ps, e.registry.key q.1 ≠ e.registry.key p.1) :
    e.founders (ps ++ [p]) = e.founders ps ++ [p] := by
  have hall : (e.founders ps).all (fun f => e.registry.key p.1 ≠ e.registry.key f.1) = true := by
    rw [List.all_eq_true]
    intro f hf
    exact decide_eq_true (h f hf).symm
  rw [founders_append]
  simp only [founders, hr, Bool.false_eq_true, ↓reduceIte, List.filter_nil, List.filter_cons, hall]

theorem all_refused_iff :
    (e.namesakes ps name).all (fun q => e.registry.refuses q.1) = true ↔
      ∀ f ∈ e.founders ps, e.registry.key f.1 ≠ e.registry.key name := by
  rw [List.all_eq_true]
  constructor
  · intro hall f hf hk
    have hmem := List.mem_of_find?_eq_some (mem_founders.mp hf)
    rw [namesakes_congr hk] at hmem
    have hr := hall f hmem
    rw [not_refused_of_mem_founders hf] at hr
    cases hr
  · intro hno q hq
    cases hf : (e.namesakes ps name).find? fun q => !e.registry.refuses q.1 with
    | none => simpa using List.find?_eq_none.mp hf q hq
    | some f =>
      have hk : e.registry.key f.1 = e.registry.key name := by
        simpa using (List.mem_filter.mp (List.mem_of_find?_eq_some hf)).2
      rw [← namesakes_congr hk] at hf
      exact absurd hk (hno f (mem_founders.mpr hf))

theorem losses_append (ps : List (Text × Text)) (p : Text × Text) :
    e.losses (ps ++ [p]) = e.losses ps + if e.registry.refuses p.1 = true ∧
      ∀ f ∈ e.founders ps, e.registry.key f.1 ≠ e.registry.key p.1 then 1 else 0 := by
  have hold : ∀ i ∈ List.range ps.length, e.lost (ps ++ [p]) i = e.lost ps i := by
    intro i hi
    have hlt := List.mem_range.mp hi
    rw [lost, lost, List.getElem?_append_left hlt, List.take_append_of_le_length (Nat.le_of_lt hlt)]
  have hnew : e.lost (ps ++ [p]) ps.length = true ↔ e.registry.refuses p.1 = true ∧
      ∀ f ∈ e.founders ps, e.registry.key f.1 ≠ e.registry.key p.1 := by
    rw [← all_refused_iff, lost, List.getElem?_concat_length, List.take_left]
    simp
  rw [losses, List.length_append, List.length_singleton, List.range_succ, List.countP_append,
    List.countP_congr fun i hi => by rw [hold i hi], losses]
  simp only [List.countP_cons, List.countP_nil, Nat.zero_add, hnew]

theorem lastValue_same (h : e.registry.key p.1 = e.registry.key name) :
    e.lastValue (ps ++ [p]) name = p.2 := by
  rw [lastValue, namesakes_append_same h, List.getLast?_concat]
  rfl

theorem lastValue_other (h : e.registry.key p.1 ≠ e.registry.key name) :
    e.lastValue (ps ++ [p]) name = e.lastValue ps name := by
  rw [lastValue, lastValue, namesakes_append_other h]

end

/-- The engine `e` after the readings `done` have been loaded into `e₀`, which had no slots. -/
structure Enrolled (e₀ : Engine) (done : List (Text × Text)) (e : Engine) : Prop where
  slots : e.registry.slots = e₀.roster done
  next : e.registry.next = e₀.registry.next + (e₀.founders done).length
  nameMax : e.nameMax = e₀.nameMax
  caseSensitive : e.registry.caseSensitive = e₀.registry.caseSensitive
  refused : e.registry.refused = e₀.registry.refused

section
variable {e₀ e : Engine} {done : List (Text × Text)} {p f : Text × Text} {r : Record} {name : Text}

theorem enrolled_new (h : e₀.registry.slots = []) : Enrolled e₀ [] e₀ :=
  ⟨h, rfl, rfl, rfl, rfl⟩

theorem enrolled_note (h : Enrolled e₀ done e) (level : Level) (source message : Text) :
    Enrolled e₀ done (e.note level source message) :=
  ⟨h.slots, h.next, h.nameMax, h.caseSensitive, h.refused⟩

theorem key_enrolled (h : Enrolled e₀ done e) : e.registry.key = e₀.registry.key :=
  Registry.key_congr h.caseSensitive

theorem mem_roster : some r ∈ e₀.roster done ↔
    ∃ i p, (e₀.founders done)[i]? = some p ∧ e₀.founded done i p.1 = r := by
  rw [roster, List.mem_mapIdx]
  simp only [Option.some.injEq, List.getElem?_eq_some_iff]
  constructor
  · rintro ⟨i, hi, rfl⟩
    exact ⟨i, _, ⟨hi, rfl⟩, rfl⟩
  · rintro ⟨i, p, ⟨hi, rfl⟩, rfl⟩
    exact ⟨i, hi, rfl⟩

theorem none_notMem_roster : none ∉ e₀.roster done := by
  rw [roster, List.mem_mapIdx]
  simp

theorem mem_records_enrolled (h : Enrolled e₀ done e) : r ∈ e.registry.records ↔
    ∃ i p, (e₀.founders done)[i]? = some p ∧ e₀.founded done i p.1 = r := by
  rw [← mem_roster, ← h.slots]
  simp [Registry.records]

theorem find?_enrolled (h : Enrolled e₀ done e) (hf : e.registry.find? name = some r) :
    ∃ i f, (e₀.founders done)[i]? = some f ∧ e₀.registry.key f.1 = e₀.registry.key name ∧
      r = e₀.founded done i f.1 := by
  obtain ⟨hr, hk⟩ := Registry.find?_mem hf
  obtain ⟨i, f, hi, rfl⟩ := (mem_records_enrolled h).mp hr
  rw [key_enrolled h] at hk
  exact ⟨i, f, hi, hk, rfl⟩

theorem find?_enrolled_none (h : Enrolled e₀ done e) : e.registry.find? name = none ↔
    ∀ f ∈ e₀.founders done, e₀.registry.key f.1 ≠ e₀.registry.key name := by
  rw [Registry.find?_eq_none_iff, key_enrolled h]
  constructor
  · intro hall f hf
    obtain ⟨i, hi⟩ := List.mem_iff_getElem?.mp hf
    exact hall _ ((mem_records_enrolled h).mpr ⟨i, f, hi, rfl⟩)
  · intro hall r hr
    obtain ⟨i, f, hi, rfl⟩ := (mem_records_enrolled h).mp hr
    exact hall f (List.mem_of_getElem? hi)

theorem enrolled_reload (h : Enrolled e₀ done e) (hf : e.registry.find? p.1 = some r) :
    Enrolled e₀ (done ++ [p])
      { e with registry := e.registry.modify r.serial (Record.loaded p.2) } := by
  obtain ⟨i, f, hi, hk, rfl⟩ := find?_enrolled h hf
  have hsame : e₀.founders (done ++ [p]) = e₀.founders done :=
    founders_old (.inr ⟨f, List.mem_of_getElem? hi, hk⟩)
  refine ⟨?_, by rw [hsame]; exact h.next, h.nameMax, h.caseSensitive, h.refused⟩
  apply List.ext_getElem?
  intro j
  simp only [Registry.modify, h.slots, roster, hsame, List.getElem?_map, List.getElem?_mapIdx,
    Option.map_map]
  cases hg : (e₀.founders done)[j]? with
  | none => rfl
  | some g =>
    by_cases hj : j = i
    · subst hj
      obtain rfl : g = f := Option.some.inj (hg.symm.trans hi)
      simp [founded, Record.loaded, lastValue_same hk.symm]
    · have hother : e₀.registry.key p.1 ≠ e₀.registry.key g.1 := fun he =>
        hj (founders_index hg hi (he.symm.trans hk.symm))
      simp [founded, hj, lastValue_other hother]

theorem roster_other (hsame : e₀.founders (done ++ [p]) = e₀.founders done)
    (hother : ∀ f ∈ e₀.founders done, e₀.registry.key f.1 ≠ e₀.registry.key p.1) :
    e₀.roster (done ++ [p]) = e₀.roster done := by
  rw [roster, roster, hsame, List.mapIdx_eq_mapIdx_iff]
  intro i hi
  rw [founded, founded, lastValue_other (hother _ (List.getElem_mem hi)).symm]

theorem enrolled_drop (h : Enrolled e₀ done e) (hf : e.registry.find? p.1 = none)
    (hr : e₀.registry.refuses p.1 = true) : Enrolled e₀ (done ++ [p]) e := by
  have hsame : e₀.founders (done ++ [p]) = e₀.founders done := founders_old (.inl hr)
  refine ⟨?_, by rw [hsame]; exact h.next, h.nameMax, h.caseSensitive, h.refused⟩
  rw [roster_other hsame ((find?_enrolled_none h).mp hf), h.slots]

theorem place_of_full {slots : List (Option Record)} (h : none ∉ slots) :
    Registry.place r slots = slots ++ [some r] := by
  induction slots with
  | nil => rfl
  | cons s slots ih =>
    cases s with
    | none => exact absurd (List.mem_cons_self ..) h
    | some x => rw [Registry.place, ih fun hm => h (List.mem_cons_of_mem _ hm), List.cons_append]

theorem enrolled_create (h : Enrolled e₀ done e) (hf : e.registry.find? p.1 = none)
    (hr : e₀.registry.refuses p.1 = false) :
    Enrolled e₀ (done ++ [p]) { e with
      registry := (e.registry.add p.1).modify e.registry.next (Record.loaded p.2) } := by
  have hother := (find?_enrolled_none h).mp hf
  have hnew := founders_new hr hother
  refine ⟨?_, ?_, h.nameMax, h.caseSensitive, h.refused⟩
  · have hslots : (e.registry.add p.1).slots =
        e₀.roster done ++ [some (.fresh e.registry.next p.1)] := by
      rw [Registry.add, h.slots]
      exact place_of_full none_notMem_roster
    show List.map _ (e.registry.add p.1).slots = _
    rw [hslots, roster, roster, hnew, List.mapIdx_concat, List.map_append]
    congr 1
    · apply List.ext_getElem?
      intro j
      rw [List.getElem?_map, List.getElem?_mapIdx, List.getElem?_mapIdx]
      cases hg : (e₀.founders done)[j]? with
      | none => rfl
      | some g =>
        have hj : j ≠ (e₀.founders done).length :=
          Nat.ne_of_lt (List.getElem?_eq_some_iff.mp hg).1
        have hg := (hother g (List.mem_of_getElem? hg)).symm
        simp [founded, h.next, hj, lastValue_other hg]
    · simp [founded, Record.loaded, Record.fresh, h.next, lastValue_same]
  · show e.registry.next + 1 = _
    rw [hnew, List.length_append, h.next]
    rfl

theorem enrolled_inherit (h : Enrolled e₀ done e) (entry : Text) :
    Enrolled e₀ (done ++ (e₀.reading? entry).toList) (e.inherit entry).1 ∧
      (if (e.inherit entry).2 then 1 else 0) + e₀.losses (done ++ (e₀.reading? entry).toList) =
        e₀.losses done + (e₀.reading? entry).toList.length := by
  have hcases := inherits e entry
  rw [reading?_congr h.nameMax] at hcases
  generalize e₀.reading? entry = reading, e.inherit entry = after at hcases
  cases hcases with
  | skip message => simpa using enrolled_note h _ _ _
  | @reload p r hf =>
    have hfound : ¬ ∀ f ∈ e₀.founders done, e₀.registry.key f.1 ≠ e₀.registry.key p.1 := by
      rw [← find?_enrolled_none h, hf]
      nofun
    have hcount : e₀.losses (done ++ [p]) = e₀.losses done := by
      rw [losses_append, if_neg fun hl => hfound hl.2, Nat.add_zero]
    refine ⟨enrolled_reload h hf, ?_⟩
    show 1 + e₀.losses (done ++ [p]) = e₀.losses done + 1
    omega
  | @drop p hf hr message =>
    rw [refuses_congr h.refused] at hr
    have hcount : e₀.losses (done ++ [p]) = e₀.losses done + 1 := by
      rw [losses_append, if_pos ⟨hr, (find?_enrolled_none h).mp hf⟩]
    refine ⟨enrolled_note (enrolled_drop h hf hr) _ _ _, ?_⟩
    show 0 + e₀.losses (done ++ [p]) = e₀.losses done + 1
    omega
  | @create p hf hr message =>
    rw [refuses_congr h.refused] at hr
    have hcount : e₀.losses (done ++ [p]) = e₀.losses done := by
      rw [losses_append, hr, if_neg (by simp), Nat.add_zero]
    refine ⟨enrolled_note (enrolled_create h hf hr) .debug registrySource message, ?_⟩
    show 1 + e₀.losses (done ++ [p]) = e₀.losses done + 1
    omega

theorem enrolled_inheritAll (h : Enrolled e₀ done e) (entries : List Text) :
    Enrolled e₀ (done ++ entries.filterMap e₀.reading?) (e.inheritAll entries).1 ∧
      (e.inheritAll entries).2 + e₀.losses (done ++ entries.filterMap e₀.reading?) =
        e₀.losses done + (entries.filterMap e₀.reading?).length := by
  induction entries generalizing done e with
  | nil => simpa [inheritAll] using h
  | cons entry entries ih =>
    obtain ⟨hone, hcount⟩ := enrolled_inherit h entry
    obtain ⟨hall, htotal⟩ := ih hone
    have hloaded : (e.inheritAll (entry :: entries)).2 =
        (if (e.inherit entry).2 then 1 else 0) + ((e.inherit entry).1.inheritAll entries).2 := by
      simp only [inheritAll]
      split <;> omega
    rw [filterMap_reading?, ← List.append_assoc, hloaded, List.length_append]
    refine ⟨hall, ?_⟩
    omega

end

/-- Startup without any slots: there is one record for each group that is not
refused throughout, in the order of the founders. -/
theorem bootstrap_roster {e : Engine} (h : e.registry.slots = []) (entries : List Text) :
    let ps := entries.filterMap e.reading?
    (∀ entry name value, e.reading? entry = some (name, value) ↔
      ∃ before, before ≠ [] ∧ '=' ∉ before ∧ entry = before ++ '=' :: value ∧
        name = Text.upTo e.nameMax before) ∧
    (e.bootstrap entries).registry.slots = e.roster ps ∧
    (∀ p, p ∈ e.founders ps ↔
      (e.namesakes ps p.1).find? (fun q => !e.registry.refuses q.1) = some p) ∧
    (e.founders ps).Pairwise (fun p q =>
      e.registry.key p.1 ≠ e.registry.key q.1 ∧ ps.idxOf p < ps.idxOf q) ∧
    (∀ p ∈ ps, e.registry.refuses p.1 = false →
      ∃ f ∈ e.founders ps, e.registry.key f.1 = e.registry.key p.1) ∧
    ∃ n, n + e.losses ps = ps.length ∧
      (e.bootstrap entries).log.getLast? = some ⟨.info,
        "bootstrapped ".toList ++ Text.ofNat n ++ " variables".toList, registrySource⟩ := by
  intro ps
  obtain ⟨hall, hcount⟩ := enrolled_inheritAll (enrolled_new h) entries
  refine ⟨fun _ _ _ => reading?_eq_some_iff, hall.slots, fun _ => mem_founders,
    founders_keys.and founders_order, ?_, (e.inheritAll entries).2, ?_, ?_⟩
  · intro p hp hr
    by_contra hno
    have hrefused := all_refused_iff.mpr fun f hf hk => hno ⟨f, hf, hk⟩
    have hmem : p ∈ e.namesakes ps p.1 := List.mem_filter.mpr ⟨hp, by simp⟩
    have hp := List.all_eq_true.mp hrefused p hmem
    rw [hr] at hp
    cases hp
  · have hnone : e.losses [] = 0 := rfl
    rw [hnone, Nat.zero_add] at hcount
    exact hcount
  · exact List.getLast?_concat

/-- Malformed entries, values with an equals sign, a group whose first entry is refused, and names
that compare equal once they are cut. -/
def muddle : List Text :=
  ["PATH=/bin".toList, "=x".toList, "noequals".toList, "Home=1".toList, "HOME=2".toList,
    "homeless=a=b".toList, "path=/usr".toList, "Nope=3".toList]

theorem bootstrap_roster_sample :
    let e := Engine.ofParts ⟨.ofMemory, []⟩ .standard false 4 ["Home".toList, "Nope".toList]
    e.registry.slots = [] ∧
    (e.bootstrap muddle).registry.slots =
      [some ⟨0, "PATH".toList, "/usr".toList, "/usr".toList, true, false⟩,
        some ⟨1, "HOME".toList, "a=b".toList, "a=b".toList, true, false⟩] ∧
    ∃ n, n + e.losses (muddle.filterMap e.reading?) = 6 ∧
      (e.bootstrap muddle).log.getLast? = some ⟨.info,
        "bootstrapped ".toList ++ Text.ofNat n ++ " variables".toList, registrySource⟩ := by
  intro e
  obtain ⟨-, hslots, -, -, -, hcount⟩ := bootstrap_roster (e := e) rfl muddle
  exact ⟨rfl, hslots.trans (by decide +kernel), hcount⟩

end LetShell.Engine
