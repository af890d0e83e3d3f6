import ChiefLiquidity.ForMathlib.Rounding

/-!
# The constant-product market

A market holds an input reserve `r` and an output reserve `o`. Trading in `f` pays out
`f * o / (r + f)`, rounded down. This file develops that quote over the naturals: what it is
bounded by, what it does to the product of the reserves, and how the state it settles in moves
when the reserves it was quoted on are changed first.

Nothing here knows about fees: `f` is whatever the quote trades on, and `g` is whatever the input
reserve grows by, with `f ≤ g` where that matters.

## Main definitions

* `ConstantProduct.quote f r o` — the output of a trade
* `ConstantProduct.rest f r o` — the output reserve it leaves
* `ConstantProduct.inTurn ts r o` — the output of several trades, one after the other

## Main results

* `ConstantProduct.product_le` — the product of the reserves never falls
* `ConstantProduct.quote_mono` — more output reserve or less input reserve, more output
* `ConstantProduct.inTurn_le_quote` — trading in pieces never pays
* `ConstantProduct.rest_cross_le` — adding `c` to the input reserve and taking `d ≥ 1` from the
  output reserve lowers the settled ratio of output to input, provided the trade is not too large
-/

namespace ConstantProduct

variable {f g r o c d r' o' : ℕ}

/-- What a trade of `f` against the reserves `r` (in) and `o` (out) pays. -/
def quote (f r o : ℕ) : ℕ := f * o / (r + f)

/-- The output reserve left by that trade. -/
def rest (f r o : ℕ) : ℕ := o - quote f r o

theorem quote_mul_le (f r o : ℕ) : quote f r o * (r + f) ≤ f * o := Nat.div_mul_le_self _ _

theorem lt_quote_succ_mul (hr : 0 < r) : f * o < (quote f r o + 1) * (r + f) := by
  rw [Nat.mul_comm (quote f r o + 1)]
  exact Nat.lt_mul_div_succ _ (by omega)

theorem quote_lt (hr : 0 < r) (ho : 0 < o) : quote f r o < o := by
  apply Nat.div_lt_of_lt_mul
  rw [Nat.add_mul]
  have : 0 < r * o := Nat.mul_pos hr ho
  omega

theorem quote_le (f r o : ℕ) : quote f r o ≤ o := by
  apply Nat.div_le_of_le_mul
  rw [Nat.add_mul]
  omega

theorem rest_pos (hr : 0 < r) (ho : 0 < o) : 0 < rest f r o := Nat.sub_pos_of_lt (quote_lt hr ho)

theorem rest_add_quote (f r o : ℕ) : rest f r o + quote f r o = o :=
  Nat.sub_add_cancel (quote_le f r o)

/-- A trade never pays above the price it starts from. -/
theorem quote_mul_in_le (f r o : ℕ) : quote f r o * r ≤ f * o :=
  (Nat.mul_le_mul_left _ (Nat.le_add_right r f)).trans (quote_mul_le f r o)

/-- **The product never falls.** -/
theorem product_le (f r o : ℕ) : r * o ≤ (r + f) * rest f r o := by
  have hq := quote_mul_le f r o
  have hsplit : (r + f) * rest f r o + quote f r o * (r + f) = (r + f) * o := by
    rw [Nat.mul_comm (quote f r o), ← Nat.mul_add, rest_add_quote]
  have : (r + f) * o = r * o + f * o := Nat.add_mul r f o
  omega

theorem quote_mono (hr : 0 < r') (hrr : r' ≤ r) (hoo : o ≤ o') : quote f r o ≤ quote f r' o' := by
  refine Rounding.div_le_div_of_cross (by omega) (by omega) ?_
  exact Nat.mul_le_mul (Nat.mul_le_mul_left f hoo) (by omega)

theorem quote_mono_in (hr : 0 < r) (hff : f ≤ g) : quote f r o ≤ quote g r o := by
  refine Rounding.div_le_div_of_cross (by omega) (by omega) ?_
  calc f * o * (r + g) = f * o * r + f * o * g := by ring
    _ ≤ g * o * r + f * o * g := Nat.add_le_add_right
      (Nat.mul_le_mul_right _ (Nat.mul_le_mul_right _ hff)) _
    _ = g * o * (r + f) := by ring

/-! ### Trades in turn -/

/-- What trades pay in total when they are made one after the other. A trade is what its quote
trades on, and what the input reserve grows by. -/
def inTurn : List (ℕ × ℕ) → ℕ → ℕ → ℕ
  | [], _, _ => 0
  | t :: ts, r, o => quote t.1 r o + inTurn ts (r + t.2) (rest t.1 r o)

/-- Anything paid at no better than the first price leaves a second trade with no more than one
trade of both would pay. -/
theorem add_quote_le {x : ℕ} (hr : 0 < r) (hx : x * (r + f) ≤ f * o) (hxo : x ≤ o) :
    x + quote g (r + f) (o - x) ≤ quote (f + g) r o := by
  have hpos : 0 < r + (f + g) := by omega
  have hq := quote_mul_le g (r + f) (o - x)
  refine (Nat.le_div_iff_mul_le hpos).mpr ?_
  have hsplit : g * (o - x) + g * x = g * o := by rw [← Nat.mul_add, Nat.sub_add_cancel hxo]
  calc (x + quote g (r + f) (o - x)) * (r + (f + g))
      = x * (r + f) + x * g + quote g (r + f) (o - x) * (r + f + g) := by ring
    _ ≤ f * o + x * g + g * (o - x) := by omega
    _ = f * o + g * o := by rw [← hsplit]; ring
    _ = (f + g) * o := by ring

/-- **Trading in pieces never pays**: what the reserves keep of the earlier pieces only lowers the
later quotes, and so do the roundings. -/
theorem inTurn_le_quote {ts : List (ℕ × ℕ)} (hts : ∀ t ∈ ts, t.1 ≤ t.2) (hr : 0 < r')
    (hrr : r' ≤ r) : inTurn ts r o ≤ quote (ts.map Prod.fst).sum r' o := by
  induction ts generalizing r r' o with
  | nil => exact Nat.zero_le _
  | cons t ts ih =>
    have hfirst : quote t.1 r o * (r' + t.1) ≤ t.1 * o :=
      (Nat.mul_le_mul_left _ (by omega)).trans (quote_mul_le t.1 r o)
    have hle : t.1 ≤ t.2 := hts t (List.mem_cons_self ..)
    have hrest : inTurn ts (r + t.2) (rest t.1 r o) ≤
        quote (ts.map Prod.fst).sum (r' + t.1) (o - quote t.1 r o) :=
      ih (fun u hu => hts u (List.mem_cons_of_mem _ hu)) (by omega) (by omega)
    calc quote t.1 r o + inTurn ts (r + t.2) (rest t.1 r o)
        ≤ quote t.1 r o + quote (ts.map Prod.fst).sum (r' + t.1) (o - quote t.1 r o) :=
          Nat.add_le_add_left hrest _
      _ ≤ quote (t.1 + (ts.map Prod.fst).sum) r' o := add_quote_le hr hfirst (quote_le _ _ _)

/-- What is left, weighed against the reserve the trade found: `quote * r ≤ f * rest`. -/
theorem quote_mul_in_le_rest (f r o : ℕ) : quote f r o * r ≤ f * rest f r o := by
  have hq := quote_mul_le f r o
  have hr := rest_add_quote f r o
  nlinarith

/-- The condition on `d` that `rest_cross_le` asks for holds of every larger input reserve. -/
theorem dust_mono {r₀ : ℕ} (hr : 0 < r₀) (hle : r₀ ≤ r)
    (h : f * (r₀ + g) ≤ d * (r₀ * (r₀ + c))) : f * (r + g) ≤ d * (r * (r + c)) := by
  obtain ⟨e, rfl⟩ := Nat.exists_eq_add_of_le hle
  have hf : f ≤ d * (r₀ + c) := by
    refine Nat.le_of_mul_le_mul_right ?_ hr
    calc f * r₀ ≤ f * (r₀ + g) := Nat.mul_le_mul_left f (Nat.le_add_right r₀ g)
      _ ≤ d * (r₀ * (r₀ + c)) := h
      _ = d * (r₀ + c) * r₀ := by ring
  calc f * (r₀ + e + g) = f * (r₀ + g) + f * e := by ring
    _ ≤ d * (r₀ * (r₀ + c)) + d * (r₀ + c) * e := Nat.add_le_add h (Nat.mul_le_mul_right e hf)
    _ ≤ d * (r₀ * (r₀ + c)) + d * (r₀ + c) * e + d * (e * (r₀ + e)) := Nat.le_add_right _ _
    _ = d * ((r₀ + e) * (r₀ + e + c)) := by ring

/-- The reserve left by a trade moves like its input side: after `c` is added to the input
reserve and `d` taken from the output reserve, `rest` is below the value it would need for the
settled ratio to rise.

Writing `h` for `rest f r o` and `h'` for `rest f (r + c) (o - d)`: when `h' ≤ h` there is
nothing to prove, and otherwise the rounding up of `h'` is paid for by the debt `d` and by the
slack `r² - f·g`. -/
theorem rest_cross_le (hr : 0 < r) (hd : d ≤ o) (hfg : f * g ≤ r * (r + c))
    (hdust : f * (r + g) ≤ d * (r * (r + c))) :
    rest f (r + c) (o - d) * (r + g) ≤ rest f r o * (r + c + g) := by
  set h := rest f r o with hh
  set h' := rest f (r + c) (o - d) with hh'
  rcases Nat.lt_or_ge h h' with hlt | hle
  swap
  · calc h' * (r + g) ≤ h * (r + g) := Nat.mul_le_mul_right _ hle
      _ ≤ h * (r + c + g) := Nat.mul_le_mul_left _ (by omega)
  obtain ⟨k, hk⟩ : ∃ k, h' = h + (k + 1) := ⟨h' - h - 1, by omega⟩
  set q := quote f r o with hq
  set q' := quote f (r + c) (o - d) with hq'
  have hsum : h + q = o := rest_add_quote f r o
  have hsum' : h' + q' = o - d := rest_add_quote f (r + c) (o - d)
  have hprod : q * r ≤ f * h := quote_mul_in_le_rest f r o
  have hlow : q * (r + f) ≤ f * o := quote_mul_le f r o
  have hup : f * (o - d) < (q' + 1) * (r + c + f) := lt_quote_succ_mul (by omega)
  obtain ⟨e, he⟩ : ∃ e, o = e + d := ⟨o - d, by omega⟩
  -- the quote of the changed reserves fell by `k + 1 + d`, which costs the collateral `c`
  have hcost : k * (r + c + f) + d * (r + c) < q * c := by
    have he' : o - d = e := by omega
    rw [he'] at hup
    have hsum'' : h' + q' = e := by omega
    have hs : h + q = e + d := by omega
    nlinarith
  have hscaled : r * (k * (r + c + f) + d * (r + c)) ≤ f * h * c := by
    calc r * (k * (r + c + f) + d * (r + c)) ≤ r * (q * c) := Nat.mul_le_mul_left r hcost.le
      _ = q * r * c := by ring
      _ ≤ f * h * c := Nat.mul_le_mul_right c hprod
  have hgain : f * ((k + 1) * (r + g)) ≤ f * (h * c) := by
    have hk' : k * (f * (r + g)) ≤ k * (r * (r + c + f)) := Nat.mul_le_mul_left k (by nlinarith)
    calc f * ((k + 1) * (r + g)) = k * (f * (r + g)) + f * (r + g) := by ring
      _ ≤ k * (r * (r + c + f)) + d * (r * (r + c)) := Nat.add_le_add hk' hdust
      _ = r * (k * (r + c + f) + d * (r + c)) := by ring
      _ ≤ f * h * c := hscaled
      _ = f * (h * c) := by ring
  rcases Nat.eq_zero_or_pos f with hf | hf
  · -- without a trade nothing is rounded, and `h' ≤ h` after all
    have : q = 0 := by rw [hq, hf]; simp [quote]
    omega
  have hfin : (k + 1) * (r + g) ≤ h * c := Nat.le_of_mul_le_mul_left hgain hf
  calc h' * (r + g) = h * (r + g) + (k + 1) * (r + g) := by rw [hk]; ring
    _ ≤ h * (r + g) + h * c := Nat.add_le_add_left hfin _
    _ = h * (r + c + g) := by ring

end ConstantProduct
