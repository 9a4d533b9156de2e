/-! Results that may fail. A chain of steps gives a value only if every step does, and the value is
built from theirs. -/
namespace FieldScript.Outcome

variable {ε α β : Type}

theorem bind_eq_ok {x : Except ε α} {f : α → Except ε β} {b : β} :
    (x >>= f) = .ok b ↔ ∃ a, x = .ok a ∧ f a = .ok b := by
  cases x <;> simp [bind, Except.bind]

theorem bind_eq_error {x : Except ε α} {f : α → Except ε β} {e : ε} :
    (x >>= f) = .error e ↔ x = .error e ∨ ∃ a, x = .ok a ∧ f a = .error e := by
  cases x <;> simp [bind, Except.bind]

theorem toOption_eq_some {x : Except ε α} {a : α} : x.toOption = some a ↔ x = .ok a := by
  cases x <;> simp [Except.toOption]

theorem pure_eq_ok {a b : α} : (pure a : Except ε α) = .ok b ↔ a = b := by
  simp [pure, Except.pure]

theorem ite_eq_ok {p : Prop} [Decidable p] {a b : α} {e : ε} :
    (if p then .ok a else .error e : Except ε α) = .ok b ↔ p ∧ a = b := by
  split <;> simp_all

theorem mapM_cons_eq_ok {f : α → Except ε β} {x : α} {xs : List α} {ys : List β} :
    (x :: xs).mapM f = .ok ys ↔ ∃ y rest, f x = .ok y ∧ xs.mapM f = .ok rest ∧ ys = y :: rest := by
  simp only [List.mapM_cons, bind_eq_ok, pure_eq_ok]
  constructor
  · rintro ⟨y, hy, rest, hrest, rfl⟩
    exact ⟨y, rest, hy, hrest, rfl⟩
  · rintro ⟨y, rest, hy, hrest, rfl⟩
    exact ⟨y, hy, rest, hrest, rfl⟩

theorem length_of_mapM {f : α → Except ε β} {xs : List α} {ys : List β}
    (h : xs.mapM f = .ok ys) : ys.length = xs.length := by
  induction xs generalizing ys with
  | nil =>
    simp only [List.mapM_nil, pure_eq_ok] at h
    simp [← h]
  | cons x xs ih =>
    obtain ⟨y, rest, _, hrest, rfl⟩ := mapM_cons_eq_ok.mp h
    simp [ih hrest]

theorem getElem?_of_mapM {f : α → Except ε β} {xs : List α} {ys : List β} (h : xs.mapM f = .ok ys)
    {i : Nat} {x : α} (hx : xs[i]? = some x) : ∃ y, f x = .ok y ∧ ys[i]? = some y := by
  induction xs generalizing ys i with
  | nil => cases hx
  | cons first rest ih =>
    obtain ⟨y, others, hy, hothers, rfl⟩ := mapM_cons_eq_ok.mp h
    cases i with
    | zero =>
      cases hx
      exact ⟨y, hy, rfl⟩
    | succ i => exact ih hothers hx

theorem exists_mapM {f : α → Except ε β} {xs : List α} (h : ∀ x ∈ xs, ∃ y, f x = .ok y) :
    ∃ ys, xs.mapM f = .ok ys := by
  induction xs with
  | nil => exact ⟨[], rfl⟩
  | cons x xs ih =>
    obtain ⟨⟨y, hy⟩, hxs⟩ := List.forall_mem_cons.mp h
    obtain ⟨ys, hys⟩ := ih hxs
    exact ⟨y :: ys, mapM_cons_eq_ok.mpr ⟨y, ys, hy, hys, rfl⟩⟩

theorem mapM_eq_ok_map {f : α → Except ε β} {g : α → β} (h : ∀ x, f x = .ok (g x))
    (xs : List α) : xs.mapM f = .ok (xs.map g) := by
  induction xs with
  | nil => rfl
  | cons x xs ih => exact mapM_cons_eq_ok.mpr ⟨g x, xs.map g, h x, ih, rfl⟩

theorem mapM_append_cons_error {f : α → Except ε β} {before after : List α} {x : α} {e : ε}
    (passes : ∀ y ∈ before, ∃ b, f y = .ok b) (fails : f x = .error e) :
    (before ++ x :: after).mapM f = .error e := by
  obtain ⟨ys, hys⟩ := exists_mapM passes
  rw [List.mapM_append, hys, List.mapM_cons, fails]
  rfl

theorem mapM_range_eq_error {f : Nat → Except ε β} {n : Nat} {e : ε} :
    (List.range n).mapM f = .error e ↔
      ∃ i < n, f i = .error e ∧ ∀ j < i, ∃ y, f j = .ok y := by
  induction n with
  | zero => simp [pure, Except.pure]
  | succ n ih =>
    have hlast : [n].mapM f = .error e ↔ f n = .error e := by
      rw [List.mapM_cons, List.mapM_nil]
      cases f n <;> simp [bind, Except.bind, pure, Except.pure]
    have hok : (∃ ys, (List.range n).mapM f = .ok ys) ↔ ∀ j < n, ∃ y, f j = .ok y := by
      constructor
      · rintro ⟨ys, hys⟩ j hj
        obtain ⟨y, hy, _⟩ := getElem?_of_mapM hys (List.getElem?_range hj)
        exact ⟨y, hy⟩
      · exact fun h => exists_mapM fun j hj => h j (List.mem_range.mp hj)
    rw [List.range_succ, List.mapM_append, bind_eq_error, ih]
    constructor
    · rintro (⟨i, hi, hfail, hbefore⟩ | ⟨ys, hys, hfail⟩)
      · exact ⟨i, Nat.lt_succ_of_lt hi, hfail, hbefore⟩
      · refine ⟨n, Nat.lt_succ_self n, hlast.mp ?_, hok.mp ⟨ys, hys⟩⟩
        rcases bind_eq_error.mp hfail with hfail | ⟨_, _, hpure⟩
        · exact hfail
        · cases hpure
    · rintro ⟨i, hi, hfail, hbefore⟩
      rcases Nat.lt_succ_iff_lt_or_eq.mp hi with hlt | rfl
      · exact .inl ⟨i, hlt, hfail, hbefore⟩
      · obtain ⟨ys, hys⟩ := hok.mpr hbefore
        exact .inr ⟨ys, hys, bind_eq_error.mpr (.inl (hlast.mpr hfail))⟩

theorem mapM_range_extract {f g : Nat → Except ε β} {start stop count : Nat}
    (total : ∀ i < count, ∃ y, f i = .ok y)
    (same : ∀ i < min stop count - start, g i = f (start + i)) :
    (List.range (min stop count - start)).mapM g =
      ((List.range count).mapM f).map fun ys => ys.extract start stop := by
  obtain ⟨ys, hys⟩ := exists_mapM fun i hi => total i (List.mem_range.mp hi)
  have htotal (i : Nat) (hi : i < min stop count - start) : ∃ y, g i = .ok y := by
    obtain ⟨y, hy⟩ := total (start + i) (by omega)
    exact ⟨y, (same i hi).trans hy⟩
  obtain ⟨zs, hzs⟩ := exists_mapM fun i hi => htotal i (List.mem_range.mp hi)
  have hlength := length_of_mapM hys
  have hlength' := length_of_mapM hzs
  rw [List.length_range] at hlength hlength'
  rw [hys, hzs]
  refine congrArg Except.ok (List.ext_getElem (by simp; omega) fun i hi _ => ?_)
  rw [hlength'] at hi
  obtain ⟨z, hz, hget⟩ := getElem?_of_mapM hzs (List.getElem?_range hi)
  obtain ⟨y, hy, hget'⟩ := getElem?_of_mapM hys (List.getElem?_range (by omega : start + i < count))
  have hvalue : z = y := Except.ok.inj (hz.symm.trans ((same i hi).trans hy))
  rw [List.getElem_take, List.getElem_drop, (List.getElem?_eq_some_iff.mp hget).2,
    (List.getElem?_eq_some_iff.mp hget').2, hvalue]

theorem foldlM_keeps {f : β → α → Except ε β} {P : β → Prop}
    (step : ∀ b a b', P b → f b a = .ok b' → P b') {xs : List α} {b c : β} (hb : P b)
    (h : xs.foldlM f b = .ok c) : P c := by
  induction xs generalizing b with
  | nil =>
    cases h
    exact hb
  | cons x xs ih =>
    rw [List.foldlM_cons] at h
    obtain ⟨b', hstep, hrest⟩ := bind_eq_ok.mp h
    exact ih (step b x b' hb hstep) hrest

theorem forM_cons {m : Type → Type} [Monad m] (f : α → m Unit) (x : α) (xs : List α) :
    (x :: xs).forM f = f x >>= fun _ => xs.forM f := rfl

theorem forM_cons_eq_ok {f : α → Except ε Unit} {x : α} {xs : List α} {u : Unit} :
    (x :: xs).forM f = .ok u ↔ f x = .ok () ∧ xs.forM f = .ok () := by
  rw [forM_cons, bind_eq_ok]
  constructor
  · rintro ⟨_, hx, hxs⟩
    exact ⟨hx, hxs⟩
  · rintro ⟨hx, hxs⟩
    exact ⟨(), hx, hxs⟩

theorem forM_eq_ok {f : α → Except ε Unit} {xs : List α} (h : ∀ x ∈ xs, f x = .ok ()) :
    xs.forM f = .ok () := by
  induction xs with
  | nil => rfl
  | cons x xs ih =>
    obtain ⟨hx, hxs⟩ := List.forall_mem_cons.mp h
    exact forM_cons_eq_ok.mpr ⟨hx, ih hxs⟩

theorem of_forM_eq_ok {f : α → Except ε Unit} {xs : List α} {u : Unit} (h : xs.forM f = .ok u) :
    ∀ x ∈ xs, f x = .ok () := by
  induction xs with
  | nil => exact fun _ hx => absurd hx List.not_mem_nil
  | cons x xs ih =>
    obtain ⟨hx, hxs⟩ := forM_cons_eq_ok.mp h
    exact List.forall_mem_cons.mpr ⟨hx, ih hxs⟩

theorem forM_congr {f g : α → Except ε Unit} {xs : List α} (h : ∀ x ∈ xs, f x = g x) :
    xs.forM f = xs.forM g := by
  induction xs with
  | nil => rfl
  | cons x xs ih =>
    obtain ⟨hx, hxs⟩ := List.forall_mem_cons.mp h
    rw [forM_cons, forM_cons, hx, ih hxs]

theorem forM_eq_error_of_find? {f : α → Except ε Unit} {p : α → Bool}
    (passes : ∀ x, p x = false → f x = .ok ()) {xs : List α} {x : α} {e : ε}
    (first : xs.find? p = some x) (fails : f x = .error e) : xs.forM f = .error e := by
  induction xs with
  | nil => cases first
  | cons y ys ih =>
    rw [forM_cons]
    cases hy : p y with
    | true =>
      rw [List.find?_cons_of_pos hy, Option.some.injEq] at first
      rw [first, fails]
      rfl
    | false =>
      rw [List.find?_cons_of_neg (by simp [hy])] at first
      rw [passes y hy]
      exact ih first

theorem exists_of_forM_error {f : α → Except ε Unit} {xs : List α} {e : ε}
    (h : xs.forM f = .error e) : ∃ x ∈ xs, f x = .error e := by
  induction xs with
  | nil => cases h
  | cons x xs ih =>
    rw [forM_cons] at h
    rcases bind_eq_error.mp h with hx | ⟨_, _, hxs⟩
    · exact ⟨x, List.mem_cons_self, hx⟩
    · obtain ⟨y, hy, hfail⟩ := ih hxs
      exact ⟨y, List.mem_cons_of_mem x hy, hfail⟩

end FieldScript.Outcome
