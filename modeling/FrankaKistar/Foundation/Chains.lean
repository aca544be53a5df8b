import FrankaKistar.Foundation.RigidMotions

/-!
# Chains that are bent

Two chains of rigid motions with the same offsets, whose links turn by different
amounts.  Turning one link moves the end of the chain by the amount of the turn
times what is left of the chain behind that link, and the turns of several links
add up.
-/

namespace FrankaKistar
namespace Foundation
namespace Transform

/-- The links turn by at most `delta` against each other. -/
structure Turned (delta : ℝ) (a b : Transform ℝ) : Prop where
  offset : a.p = b.p
  left : IsRotation a.r
  right : IsRotation b.r
  turn : forall v, length (a.r.mulVec v - b.r.mulVec v) ≤ delta * length v

theorem length_nonneg (v : Fin 3 -> ℝ) : 0 ≤ length v := norm_nonneg _

theorem turned_refl {t : Transform ℝ} (h : IsRotation t.r) : Turned 0 t t where
  offset := rfl
  left := h
  right := h
  turn := by
    intro v
    rw [sub_self, length_zero, zero_mul]

theorem Turned.mul_left {delta : ℝ} {a b t : Transform ℝ}
    (h : Turned delta a b) (ht : IsRotation t.r) :
    Turned delta (t * a) (t * b) where
  offset := by rw [mul_p, mul_p, h.offset]
  left := ht.mul h.left
  right := ht.mul h.right
  turn := by
    intro v
    rw [mul_r, mul_r, ← Matrix.mulVec_mulVec, ← Matrix.mulVec_mulVec,
      ← Matrix.mulVec_sub, length_mulVec ht]
    exact h.turn v

noncomputable def reach (links : List (Transform ℝ)) : ℝ :=
  (links.map fun t => length t.p).sum

/-- How far the end moves at most when the links turn by these amounts. -/
noncomputable def sway : List ℝ -> List (Transform ℝ) -> ℝ
  | delta :: deltas, _ :: rest => delta * reach rest + sway deltas rest
  | _, _ => 0

inductive Bent : List ℝ -> List (Transform ℝ) -> List (Transform ℝ) -> Prop
  where
  | nil : Bent [] [] []
  | cons {delta : ℝ} {deltas : List ℝ} {a b : Transform ℝ}
      {as bs : List (Transform ℝ)} :
      0 ≤ delta ->
      Turned delta a b ->
      Bent deltas as bs ->
      Bent (delta :: deltas) (a :: as) (b :: bs)

theorem Bent.left {deltas : List ℝ} {as bs : List (Transform ℝ)}
    (h : Bent deltas as bs) : forall t, t ∈ as -> IsRotation t.r := by
  induction h with
  | nil =>
      intro t ht
      cases ht
  | cons _ hturned _ ih =>
      intro t ht
      rcases List.mem_cons.mp ht with heq | hrest
      · rw [heq]
        exact hturned.left
      · exact ih t hrest

theorem Bent.length_sub_le {deltas : List ℝ} {as bs : List (Transform ℝ)}
    (h : Bent deltas as bs) :
    length (as.prod.p - bs.prod.p) ≤ sway deltas as := by
  induction h with
  | nil =>
      rw [sub_self, length_zero]
      exact le_refl 0
  | cons hdelta hturned hrest ih =>
      rename_i delta deltas a b as bs
      have hreach : length as.prod.p ≤ reach as := length_prod_le hrest.left
      have hturn := hturned.turn as.prod.p
      have hkeep := length_mulVec hturned.right (as.prod.p - bs.prod.p)
      have hsplit : (a :: as).prod.p - (b :: bs).prod.p =
          (a.r.mulVec as.prod.p - b.r.mulVec as.prod.p) +
            b.r.mulVec (as.prod.p - bs.prod.p) := by
        rw [List.prod_cons, List.prod_cons, mul_p, mul_p, hturned.offset,
          Matrix.mulVec_sub]
        abel
      calc
        length ((a :: as).prod.p - (b :: bs).prod.p)
            ≤ length (a.r.mulVec as.prod.p - b.r.mulVec as.prod.p) +
                length (b.r.mulVec (as.prod.p - bs.prod.p)) := by
              rw [hsplit]
              exact length_add_le _ _
        _ ≤ delta * reach as + sway deltas as := by
              rw [hkeep]
              have hscaled := mul_le_mul_of_nonneg_left hreach hdelta
              linarith

theorem sway_zero_cons (deltas : List ℝ) (t : Transform ℝ)
    (rest : List (Transform ℝ)) :
    sway (0 :: deltas) (t :: rest) = sway deltas rest := by
  rw [sway, zero_mul, zero_add]

theorem reach_tail_le (links : List (Transform ℝ)) :
    reach links.tail ≤ reach links := by
  cases links with
  | nil => exact le_refl _
  | cons t rest =>
      rw [reach, reach, List.tail_cons, List.map_cons, List.sum_cons]
      exact le_add_of_nonneg_left (length_nonneg t.p)

theorem sway_le {bound : ℝ} {deltas : List ℝ} {links : List (Transform ℝ)}
    (hdeltas : forall delta, delta ∈ deltas -> 0 ≤ delta) (hbound : 0 ≤ bound)
    (hreach : reach links.tail ≤ bound) :
    sway deltas links ≤ bound * deltas.sum := by
  induction links generalizing deltas with
  | nil =>
      have hsum : 0 ≤ bound * deltas.sum :=
        mul_nonneg hbound (List.sum_nonneg hdeltas)
      cases deltas with
      | nil => exact hsum
      | cons delta rest => exact hsum
  | cons t rest ih =>
      cases deltas with
      | nil => exact le_of_eq (mul_zero bound).symm
      | cons delta deltas =>
          have hrest : reach rest ≤ bound := hreach
          have hsway := ih
            (fun d hd => hdeltas d (List.mem_cons_of_mem delta hd))
            (le_trans (reach_tail_le rest) hrest)
          have hscaled := mul_le_mul_of_nonneg_left hrest
            (hdeltas delta List.mem_cons_self)
          rw [sway, List.sum_cons, mul_add]
          linarith

end Transform
end Foundation
end FrankaKistar
