import SynCirc.Signal.Polynomial
import SynCirc.Signal.Word

/-!
# The adders of the library

`ADD8`, `ADD16`, `ADD32`, `ADD64` and `ADDC64` are adders with few levels of conjunctions.  The nets
`G_i_k` and `P_i_k` tell whether a group of positions that ends in `i` generates or propagates a
carry.  `ADD16` and `ADD32` consist of the assignments of `ADD64` to their bits and the nets these
depend on, and `ADDC64` of all of them and a carry output.
-/

open Signal

section Circuits

variable {α : Type} [Signal α]

/-- The assignments of `ADD8`. -/
def adder8 (x_a x_b : Nat → α) : List α :=
  let P i := x_a i ^^^ x_b i
  let G i := x_a i &&& x_b i
  let G_1 := G 1 ^^^ (P 1 &&& x_a 0 &&& x_b 0)
  let G_2_1 := G 2 ^^^ (P 2 &&& x_a 1 &&& x_b 1) ^^^ (P 2 &&& P 1 &&& x_a 0 &&& x_b 0)
  let G_3_1 := G 3 ^^^ (P 3 &&& G_2_1)
  let G_5_1 := G 5 ^^^ (P 5 &&& x_a 4 &&& x_b 4)
  let P_5_1 := P 5 &&& P 4
  let G_6_1 := G 6 ^^^ (P 6 &&& x_a 5 &&& x_b 5) ^^^ (P 6 &&& P 5 &&& x_a 4 &&& x_b 4)
  let P_6_1 := P 6 &&& P 5 &&& P 4
  let G_4_4 := G 4 ^^^ (P 4 &&& G 3) ^^^ (P 4 &&& P 3 &&& G_2_1)
  let G_5_4 := G_5_1 ^^^ (P_5_1 &&& G 3) ^^^ (P_5_1 &&& P 3 &&& G_2_1)
  let G_6_4 := G_6_1 ^^^ (P_6_1 &&& G 3) ^^^ (P_6_1 &&& P 3 &&& G_2_1)
  [P 0, G 0 ^^^ P 1, G_1 ^^^ P 2, G_2_1 ^^^ P 3, G_3_1 ^^^ P 4, G_4_4 ^^^ P 5, G_5_4 ^^^ P 6,
   G_6_4 ^^^ P 7]

/-- The nets of the adders that are read from outside. -/
structure AdderNets (α : Type) where
  wx : List α
  G_11_2 : α
  P_15_1 : α
  P_31_2 : α
  P_47_1 : α
  P_51_1 : α
  P_55_1 : α

/-- The assignments of `ADD64`. -/
@[nospecialize]
def adder (x_a x_b : Nat → α) : AdderNets α :=
  let P i := x_a i ^^^ x_b i
  let G i := x_a i &&& x_b i
  let G_1 := G 1 ^^^ (P 1 &&& G 0)
  let G_2_1 := G 2 ^^^ (P 2 &&& x_a 1 &&& x_b 1) ^^^ (P 2 &&& P 1 &&& x_a 0 &&& x_b 0)
  let G_3_1 := G 3 ^^^ (P 3 &&& G_2_1)
  let G_5_1 := G 5 ^^^ (P 5 &&& G 4)
  let P_5_1 := P 5 &&& P 4
  let G_6_1 := G 6 ^^^ (P 6 &&& x_a 5 &&& x_b 5) ^^^ (P 6 &&& P 5 &&& x_a 4 &&& x_b 4)
  let P_6_1 := P 6 &&& P 5 &&& P 4
  let G_7_1 := G 7 ^^^ (P 7 &&& G_6_1)
  let P_7_1 := P 7 &&& P 6 &&& P 5 &&& P 4
  let G_9_1 := G 9 ^^^ (P 9 &&& G 8)
  let P_9_1 := P 9 &&& P 8
  let G_10_1 := G 10 ^^^ (P 10 &&& x_a 9 &&& x_b 9) ^^^ (P 10 &&& P 9 &&& x_a 8 &&& x_b 8)
  let P_10_1 := P 10 &&& P 9 &&& P 8
  let G_11_1 := G 11 ^^^ (P 11 &&& G_10_1)
  let P_11_1 := P 11 &&& P 10 &&& P 9 &&& P 8
  let G_13_1 := G 13 ^^^ (P 13 &&& G 12)
  let P_13_1 := P 13 &&& P 12
  let G_14_1 := G 14 ^^^ (P 14 &&& x_a 13 &&& x_b 13) ^^^ (P 14 &&& P 13 &&& x_a 12 &&& x_b 12)
  let P_14_1 := P 14 &&& P 13 &&& P 12
  let G_15_1 := G 15 ^^^ (P 15 &&& G_14_1)
  let P_15_1 := P 15 &&& P 14 &&& P 13 &&& P 12
  let G_17_1 := G 17 ^^^ (P 17 &&& G 16)
  let P_17_1 := P 17 &&& P 16
  let G_18_1 := G 18 ^^^ (P 18 &&& x_a 17 &&& x_b 17) ^^^ (P 18 &&& P 17 &&& x_a 16 &&& x_b 16)
  let P_18_1 := P 18 &&& P 17 &&& P 16
  let G_19_1 := G 19 ^^^ (P 19 &&& G_18_1)
  let P_19_1 := P 19 &&& P 18 &&& P 17 &&& P 16
  let G_21_1 := G 21 ^^^ (P 21 &&& G 20)
  let P_21_1 := P 21 &&& P 20
  let G_22_1 := G 22 ^^^ (P 22 &&& x_a 21 &&& x_b 21) ^^^ (P 22 &&& P 21 &&& x_a 20 &&& x_b 20)
  let P_22_1 := P 22 &&& P 21 &&& P 20
  let G_23_1 := G 23 ^^^ (P 23 &&& G_22_1)
  let P_23_1 := P 23 &&& P 22 &&& P 21 &&& P 20
  let G_25_1 := G 25 ^^^ (P 25 &&& G 24)
  let P_25_1 := P 25 &&& P 24
  let G_26_1 := G 26 ^^^ (P 26 &&& x_a 25 &&& x_b 25) ^^^ (P 26 &&& P 25 &&& x_a 24 &&& x_b 24)
  let P_26_1 := P 26 &&& P 25 &&& P 24
  let G_27_1 := G 27 ^^^ (P 27 &&& G_26_1)
  let P_27_1 := P 27 &&& P 26 &&& P 25 &&& P 24
  let G_29_1 := G 29 ^^^ (P 29 &&& G 28)
  let P_29_1 := P 29 &&& P 28
  let G_30_1 := G 30 ^^^ (P 30 &&& x_a 29 &&& x_b 29) ^^^ (P 30 &&& P 29 &&& x_a 28 &&& x_b 28)
  let P_30_1 := P 30 &&& P 29 &&& P 28
  let G_31_1 := G 31 ^^^ (P 31 &&& G_30_1)
  let P_31_1 := P 31 &&& P 30 &&& P 29 &&& P 28
  let G_33_1 := G 33 ^^^ (P 33 &&& G 32)
  let P_33_1 := P 33 &&& P 32
  let G_34_1 := G 34 ^^^ (P 34 &&& x_a 33 &&& x_b 33) ^^^ (P 34 &&& P 33 &&& x_a 32 &&& x_b 32)
  let P_34_1 := P 34 &&& P 33 &&& P 32
  let G_35_1 := G 35 ^^^ (P 35 &&& G_34_1)
  let P_35_1 := P 35 &&& P 34 &&& P 33 &&& P 32
  let G_37_1 := G 37 ^^^ (P 37 &&& G 36)
  let P_37_1 := P 37 &&& P 36
  let G_38_1 := G 38 ^^^ (P 38 &&& x_a 37 &&& x_b 37) ^^^ (P 38 &&& P 37 &&& x_a 36 &&& x_b 36)
  let P_38_1 := P 38 &&& P 37 &&& P 36
  let G_39_1 := G 39 ^^^ (P 39 &&& G_38_1)
  let P_39_1 := P 39 &&& P 38 &&& P 37 &&& P 36
  let G_41_1 := G 41 ^^^ (P 41 &&& G 40)
  let P_41_1 := P 41 &&& P 40
  let G_42_1 := G 42 ^^^ (P 42 &&& x_a 41 &&& x_b 41) ^^^ (P 42 &&& P 41 &&& x_a 40 &&& x_b 40)
  let P_42_1 := P 42 &&& P 41 &&& P 40
  let G_43_1 := G 43 ^^^ (P 43 &&& G_42_1)
  let P_43_1 := P 43 &&& P 42 &&& P 41 &&& P 40
  let G_45_1 := G 45 ^^^ (P 45 &&& G 44)
  let P_45_1 := P 45 &&& P 44
  let G_46_1 := G 46 ^^^ (P 46 &&& x_a 45 &&& x_b 45) ^^^ (P 46 &&& P 45 &&& x_a 44 &&& x_b 44)
  let P_46_1 := P 46 &&& P 45 &&& P 44
  let G_47_1 := G 47 ^^^ (P 47 &&& G_46_1)
  let P_47_1 := P 47 &&& P 46 &&& P 45 &&& P 44
  let G_49_1 := G 49 ^^^ (P 49 &&& G 48)
  let P_49_1 := P 49 &&& P 48
  let G_50_1 := G 50 ^^^ (P 50 &&& x_a 49 &&& x_b 49) ^^^ (P 50 &&& P 49 &&& x_a 48 &&& x_b 48)
  let P_50_1 := P 50 &&& P 49 &&& P 48
  let G_51_1 := G 51 ^^^ (P 51 &&& G_50_1)
  let P_51_1 := P 51 &&& P 50 &&& P 49 &&& P 48
  let G_53_1 := G 53 ^^^ (P 53 &&& G 52)
  let P_53_1 := P 53 &&& P 52
  let G_54_1 := G 54 ^^^ (P 54 &&& x_a 53 &&& x_b 53) ^^^ (P 54 &&& P 53 &&& x_a 52 &&& x_b 52)
  let P_54_1 := P 54 &&& P 53 &&& P 52
  let G_55_1 := G 55 ^^^ (P 55 &&& G_54_1)
  let P_55_1 := P 55 &&& P 54 &&& P 53 &&& P 52
  let G_57_1 := G 57 ^^^ (P 57 &&& G 56)
  let P_57_1 := P 57 &&& P 56
  let G_58_1 := G 58 ^^^ (P 58 &&& x_a 57 &&& x_b 57) ^^^ (P 58 &&& P 57 &&& x_a 56 &&& x_b 56)
  let P_58_1 := P 58 &&& P 57 &&& P 56
  let G_59_1 := G 59 ^^^ (P 59 &&& G_58_1)
  let P_59_1 := P 59 &&& P 58 &&& P 57 &&& P 56
  let G_61_1 := G 61 ^^^ (P 61 &&& G 60)
  let P_61_1 := P 61 &&& P 60
  let G_62_1 := G 62 ^^^ (P 62 &&& x_a 61 &&& x_b 61) ^^^ (P 62 &&& P 61 &&& x_a 60 &&& x_b 60)
  let P_62_1 := P 62 &&& P 61 &&& P 60
  let G_7_2 := G_7_1 ^^^ (P_7_1 &&& G 3) ^^^ (P_7_1 &&& P 3 &&& G_2_1)
  let G_11_2 := G_11_1 ^^^ (P_11_1 &&& G 7) ^^^ (P_11_1 &&& P 7 &&& G_6_1)
    ^^^ (P_11_1 &&& P_7_1 &&& G 3) ^^^ (P_11_1 &&& P_7_1 &&& P 3 &&& G_2_1)
  let G_15_2 := G_15_1 ^^^ (P_15_1 &&& G_11_2)
  let temp1 := G_15_1 ^^^ (P_15_1 &&& G 11) ^^^ (P_15_1 &&& P 11 &&& G_10_1)
    ^^^ (P_15_1 &&& P_11_1 &&& G 7) ^^^ (P_15_1 &&& P_11_1 &&& P 7 &&& G_6_1)
  let G_19_2 := G_19_1 ^^^ (P_19_1 &&& temp1)
  let P_19_2 := P_19_1 &&& P_15_1 &&& P_11_1 &&& P_7_1
  let temp2 := G_19_1 ^^^ (P_19_1 &&& G 15) ^^^ (P_19_1 &&& P 15 &&& G_14_1)
    ^^^ (P_19_1 &&& P_15_1 &&& G 11) ^^^ (P_19_1 &&& P_15_1 &&& P 11 &&& G_10_1)
  let G_23_2 := G_23_1 ^^^ (P_23_1 &&& temp2)
  let P_23_2 := P_23_1 &&& P_19_1 &&& P_15_1 &&& P_11_1
  let temp3 := G_23_1 ^^^ (P_23_1 &&& G 19) ^^^ (P_23_1 &&& P 19 &&& G_18_1)
    ^^^ (P_23_1 &&& P_19_1 &&& G 15) ^^^ (P_23_1 &&& P_19_1 &&& P 15 &&& G_14_1)
  let G_27_2 := G_27_1 ^^^ (P_27_1 &&& temp3)
  let P_27_2 := P_27_1 &&& P_23_1 &&& P_19_1 &&& P_15_1
  let temp4 := G_27_1 ^^^ (P_27_1 &&& G 23) ^^^ (P_27_1 &&& P 23 &&& G_22_1)
    ^^^ (P_27_1 &&& P_23_1 &&& G 19) ^^^ (P_27_1 &&& P_23_1 &&& P 19 &&& G_18_1)
  let G_31_2 := G_31_1 ^^^ (P_31_1 &&& temp4)
  let P_31_2 := P_31_1 &&& P_27_1 &&& P_23_1 &&& P_19_1
  let temp5 := G_31_1 ^^^ (P_31_1 &&& G 27) ^^^ (P_31_1 &&& P 27 &&& G_26_1)
    ^^^ (P_31_1 &&& P_27_1 &&& G 23) ^^^ (P_31_1 &&& P_27_1 &&& P 23 &&& G_22_1)
  let G_35_2 := G_35_1 ^^^ (P_35_1 &&& temp5)
  let P_35_2 := P_35_1 &&& P_31_1 &&& P_27_1 &&& P_23_1
  let temp6 := G_35_1 ^^^ (P_35_1 &&& G 31) ^^^ (P_35_1 &&& P 31 &&& G_30_1)
    ^^^ (P_35_1 &&& P_31_1 &&& G 27) ^^^ (P_35_1 &&& P_31_1 &&& P 27 &&& G_26_1)
  let G_39_2 := G_39_1 ^^^ (P_39_1 &&& temp6)
  let P_39_2 := P_39_1 &&& P_35_1 &&& P_31_1 &&& P_27_1
  let temp7 := G_39_1 ^^^ (P_39_1 &&& G 35) ^^^ (P_39_1 &&& P 35 &&& G_34_1)
    ^^^ (P_39_1 &&& P_35_1 &&& G 31) ^^^ (P_39_1 &&& P_35_1 &&& P 31 &&& G_30_1)
  let G_43_2 := G_43_1 ^^^ (P_43_1 &&& temp7)
  let P_43_2 := P_43_1 &&& P_39_1 &&& P_35_1 &&& P_31_1
  let temp8 := G_43_1 ^^^ (P_43_1 &&& G 39) ^^^ (P_43_1 &&& P 39 &&& G_38_1)
    ^^^ (P_43_1 &&& P_39_1 &&& G 35) ^^^ (P_43_1 &&& P_39_1 &&& P 35 &&& G_34_1)
  let G_47_2 := G_47_1 ^^^ (P_47_1 &&& temp8)
  let P_47_2 := P_47_1 &&& P_43_1 &&& P_39_1 &&& P_35_1
  let temp9 := G_47_1 ^^^ (P_47_1 &&& G 43) ^^^ (P_47_1 &&& P 43 &&& G_42_1)
    ^^^ (P_47_1 &&& P_43_1 &&& G 39) ^^^ (P_47_1 &&& P_43_1 &&& P 39 &&& G_38_1)
  let G_51_2 := G_51_1 ^^^ (P_51_1 &&& temp9)
  let P_51_2 := P_51_1 &&& P_47_1 &&& P_43_1 &&& P_39_1
  let temp10 := G_51_1 ^^^ (P_51_1 &&& G 47) ^^^ (P_51_1 &&& P 47 &&& G_46_1)
    ^^^ (P_51_1 &&& P_47_1 &&& G 43) ^^^ (P_51_1 &&& P_47_1 &&& P 43 &&& G_42_1)
  let G_55_2 := G_55_1 ^^^ (P_55_1 &&& temp10)
  let P_55_2 := P_55_1 &&& P_51_1 &&& P_47_1 &&& P_43_1
  let temp11 := G_55_1 ^^^ (P_55_1 &&& G 51) ^^^ (P_55_1 &&& P 51 &&& G_50_1)
    ^^^ (P_55_1 &&& P_51_1 &&& G 47) ^^^ (P_55_1 &&& P_51_1 &&& P 47 &&& G_46_1)
  let G_59_2 := G_59_1 ^^^ (P_59_1 &&& temp11)
  let P_59_2 := P_59_1 &&& P_55_1 &&& P_51_1 &&& P_47_1
  let G_19_3 := G_19_2 ^^^ (P_19_2 &&& G_3_1)
  let G_23_3 := G_23_2 ^^^ (P_23_2 &&& G_7_2)
  let G_27_3 := G_27_2 ^^^ (P_27_2 &&& G_11_2)
  let G_31_3 := G_31_2 ^^^ (P_31_2 &&& G_15_1) ^^^ (P_31_2 &&& P_15_1 &&& G_11_2)
  let G_35_3 := G_35_2 ^^^ (P_35_2 &&& G_19_1) ^^^ (P_35_2 &&& P_19_1 &&& temp1)
    ^^^ (P_35_2 &&& P_19_2 &&& G_3_1)
  let G_39_3 := G_39_2 ^^^ (P_39_2 &&& G_23_1) ^^^ (P_39_2 &&& P_23_1 &&& temp2)
    ^^^ (P_39_2 &&& P_23_2 &&& G_7_2)
  let G_43_3 := G_43_2 ^^^ (P_43_2 &&& G_27_1) ^^^ (P_43_2 &&& P_27_1 &&& temp3)
    ^^^ (P_43_2 &&& P_27_2 &&& G_11_2)
  let G_47_3 := G_47_2 ^^^ (P_47_2 &&& G_31_1) ^^^ (P_47_2 &&& P_31_1 &&& temp4)
    ^^^ (P_47_2 &&& P_31_2 &&& G_15_1) ^^^ (P_47_2 &&& P_31_2 &&& P_15_1 &&& G_11_2)
  let G_51_3 := G_51_2 ^^^ (P_51_2 &&& G_35_1) ^^^ (P_51_2 &&& P_35_1 &&& temp5)
    ^^^ (P_51_2 &&& P_35_2 &&& G_19_1) ^^^ (P_51_2 &&& P_35_2 &&& P_19_1 &&& temp1)
    ^^^ (P_51_2 &&& P_35_2 &&& P_19_2 &&& G_3_1)
  let G_55_3 := G_55_2 ^^^ (P_55_2 &&& G_39_1) ^^^ (P_55_2 &&& P_39_1 &&& temp6)
    ^^^ (P_55_2 &&& P_39_2 &&& G_23_1) ^^^ (P_55_2 &&& P_39_2 &&& P_23_1 &&& temp2)
    ^^^ (P_55_2 &&& P_39_2 &&& P_23_2 &&& G_7_2)
  let G_59_3 := G_59_2 ^^^ (P_59_2 &&& G_43_1) ^^^ (P_59_2 &&& P_43_1 &&& temp7)
    ^^^ (P_59_2 &&& P_43_2 &&& G_27_1) ^^^ (P_59_2 &&& P_43_2 &&& P_27_1 &&& temp3)
    ^^^ (P_59_2 &&& P_43_2 &&& P_27_2 &&& G_11_2)
  let G_4_4 := G 4 ^^^ (P 4 &&& G_3_1)
  let G_5_4 := G_5_1 ^^^ (P_5_1 &&& G_3_1)
  let G_6_4 := G_6_1 ^^^ (P_6_1 &&& G_3_1)
  let G_8_4 := G 8 ^^^ (P 8 &&& G_7_2)
  let G_9_4 := G_9_1 ^^^ (P_9_1 &&& G_7_2)
  let G_10_4 := G_10_1 ^^^ (P_10_1 &&& G_7_2)
  let G_12_4 := G 12 ^^^ (P 12 &&& G_11_2)
  let G_13_4 := G_13_1 ^^^ (P_13_1 &&& G_11_2)
  let G_14_4 := G_14_1 ^^^ (P_14_1 &&& G_11_2)
  let G_16_4 := G 16 ^^^ (P 16 &&& G_15_1) ^^^ (P 16 &&& P_15_1 &&& G_11_2)
  let G_17_4 := G_17_1 ^^^ (P_17_1 &&& G_15_1) ^^^ (P_17_1 &&& P_15_1 &&& G_11_2)
  let G_18_4 := G_18_1 ^^^ (P_18_1 &&& G_15_1) ^^^ (P_18_1 &&& P_15_1 &&& G_11_2)
  let G_20_4 := G 20 ^^^ (P 20 &&& G_19_1) ^^^ (P 20 &&& P_19_1 &&& temp1)
    ^^^ (P 20 &&& P_19_2 &&& G_3_1)
  let G_21_4 := G_21_1 ^^^ (P_21_1 &&& G_19_1) ^^^ (P_21_1 &&& P_19_1 &&& temp1)
    ^^^ (P_21_1 &&& P_19_2 &&& G_3_1)
  let G_22_4 := G_22_1 ^^^ (P_22_1 &&& G_19_1) ^^^ (P_22_1 &&& P_19_1 &&& temp1)
    ^^^ (P_22_1 &&& P_19_2 &&& G_3_1)
  let G_24_4 := G 24 ^^^ (P 24 &&& G_23_1) ^^^ (P 24 &&& P_23_1 &&& temp2)
    ^^^ (P 24 &&& P_23_2 &&& G_7_2)
  let G_25_4 := G_25_1 ^^^ (P_25_1 &&& G_23_1) ^^^ (P_25_1 &&& P_23_1 &&& temp2)
    ^^^ (P_25_1 &&& P_23_2 &&& G_7_2)
  let G_26_4 := G_26_1 ^^^ (P_26_1 &&& G_23_1) ^^^ (P_26_1 &&& P_23_1 &&& temp2)
    ^^^ (P_26_1 &&& P_23_2 &&& G_7_2)
  let G_28_4 := G 28 ^^^ (P 28 &&& G_27_1) ^^^ (P 28 &&& P_27_1 &&& temp3)
    ^^^ (P 28 &&& P_27_2 &&& G_11_2)
  let G_29_4 := G_29_1 ^^^ (P_29_1 &&& G_27_1) ^^^ (P_29_1 &&& P_27_1 &&& temp3)
    ^^^ (P_29_1 &&& P_27_2 &&& G_11_2)
  let G_30_4 := G_30_1 ^^^ (P_30_1 &&& G_27_1) ^^^ (P_30_1 &&& P_27_1 &&& temp3)
    ^^^ (P_30_1 &&& P_27_2 &&& G_11_2)
  let G_32_4 := G 32 ^^^ (P 32 &&& G_31_1) ^^^ (P 32 &&& P_31_1 &&& temp4)
    ^^^ (P 32 &&& P_31_2 &&& G_15_1) ^^^ (P 32 &&& P_31_2 &&& P_15_1 &&& G_11_2)
  let G_33_4 := G_33_1 ^^^ (P_33_1 &&& G_31_1) ^^^ (P_33_1 &&& P_31_1 &&& temp4)
    ^^^ (P_33_1 &&& P_31_2 &&& G_15_1) ^^^ (P_33_1 &&& P_31_2 &&& P_15_1 &&& G_11_2)
  let G_34_4 := G_34_1 ^^^ (P_34_1 &&& G_31_1) ^^^ (P_34_1 &&& P_31_1 &&& temp4)
    ^^^ (P_34_1 &&& P_31_2 &&& G_15_1) ^^^ (P_34_1 &&& P_31_2 &&& P_15_1 &&& G_11_2)
  let G_36_4 := G 36 ^^^ (P 36 &&& G_35_1) ^^^ (P 36 &&& P_35_1 &&& temp5)
    ^^^ (P 36 &&& P_35_2 &&& G_19_1) ^^^ (P 36 &&& P_35_2 &&& P_19_1 &&& temp1)
    ^^^ (P 36 &&& P_35_2 &&& P_19_2 &&& G_3_1)
  let G_37_4 := G_37_1 ^^^ (P_37_1 &&& G_35_1) ^^^ (P_37_1 &&& P_35_1 &&& temp5)
    ^^^ (P_37_1 &&& P_35_2 &&& G_19_1) ^^^ (P_37_1 &&& P_35_2 &&& P_19_1 &&& temp1)
    ^^^ (P_37_1 &&& P_35_2 &&& P_19_2 &&& G_3_1)
  let G_38_4 := G_38_1 ^^^ (P_38_1 &&& G_35_1) ^^^ (P_38_1 &&& P_35_1 &&& temp5)
    ^^^ (P_38_1 &&& P_35_2 &&& G_19_1) ^^^ (P_38_1 &&& P_35_2 &&& P_19_1 &&& temp1)
    ^^^ (P_38_1 &&& P_35_2 &&& P_19_2 &&& G_3_1)
  let G_40_4 := G 40 ^^^ (P 40 &&& G_39_1) ^^^ (P 40 &&& P_39_1 &&& temp6)
    ^^^ (P 40 &&& P_39_2 &&& G_23_1) ^^^ (P 40 &&& P_39_2 &&& P_23_1 &&& temp2)
    ^^^ (P 40 &&& P_39_2 &&& P_23_2 &&& G_7_2)
  let G_41_4 := G_41_1 ^^^ (P_41_1 &&& G_39_1) ^^^ (P_41_1 &&& P_39_1 &&& temp6)
    ^^^ (P_41_1 &&& P_39_2 &&& G_23_1) ^^^ (P_41_1 &&& P_39_2 &&& P_23_1 &&& temp2)
    ^^^ (P_41_1 &&& P_39_2 &&& P_23_2 &&& G_7_2)
  let G_42_4 := G_42_1 ^^^ (P_42_1 &&& G_39_1) ^^^ (P_42_1 &&& P_39_1 &&& temp6)
    ^^^ (P_42_1 &&& P_39_2 &&& G_23_1) ^^^ (P_42_1 &&& P_39_2 &&& P_23_1 &&& temp2)
    ^^^ (P_42_1 &&& P_39_2 &&& P_23_2 &&& G_7_2)
  let G_44_4 := G 44 ^^^ (P 44 &&& G_43_1) ^^^ (P 44 &&& P_43_1 &&& temp7)
    ^^^ (P 44 &&& P_43_2 &&& G_27_1) ^^^ (P 44 &&& P_43_2 &&& P_27_1 &&& temp3)
    ^^^ (P 44 &&& P_43_2 &&& P_27_2 &&& G_11_2)
  let G_45_4 := G_45_1 ^^^ (P_45_1 &&& G_43_1) ^^^ (P_45_1 &&& P_43_1 &&& temp7)
    ^^^ (P_45_1 &&& P_43_2 &&& G_27_1) ^^^ (P_45_1 &&& P_43_2 &&& P_27_1 &&& temp3)
    ^^^ (P_45_1 &&& P_43_2 &&& P_27_2 &&& G_11_2)
  let G_46_4 := G_46_1 ^^^ (P_46_1 &&& G_43_1) ^^^ (P_46_1 &&& P_43_1 &&& temp7)
    ^^^ (P_46_1 &&& P_43_2 &&& G_27_1) ^^^ (P_46_1 &&& P_43_2 &&& P_27_1 &&& temp3)
    ^^^ (P_46_1 &&& P_43_2 &&& P_27_2 &&& G_11_2)
  let P_48v3 := P 48 &&& P 3
  let P_49_1vs3 := P 49 &&& P 48 &&& P 3
  let P_50_1vs3 := P 50 &&& P 49 &&& P 48 &&& P 30
  let temp1_G_11_2 := (P 48 &&& G 11) ^^^ (P 48 &&& P 11 &&& G_10_1) ^^^ (P 48 &&& P_11_1 &&& G 7)
    ^^^ (P 48 &&& P_11_1 &&& P 7 &&& G_6_1) ^^^ (P 48 &&& P_11_1 &&& P_7_1 &&& G 3)
    ^^^ (P_48v3 &&& P_11_1 &&& P_7_1 &&& G_2_1)
  let temp2_G_11_2 := (P_49_1 &&& G 11) ^^^ (P_49_1 &&& P 11 &&& G_10_1)
    ^^^ (P_49_1 &&& P_11_1 &&& G 7) ^^^ (P_49_1 &&& P_11_1 &&& P 7 &&& G_6_1)
    ^^^ (P_49_1 &&& P_11_1 &&& P_7_1 &&& G 3) ^^^ (P_49_1vs3 &&& P_11_1 &&& P_7_1 &&& G_2_1)
  let temp3_G_11_2 := (P_50_1 &&& G 11) ^^^ (P_50_1 &&& P 11 &&& G_10_1)
    ^^^ (P_50_1 &&& P_11_1 &&& G 7) ^^^ (P_50_1 &&& P_11_1 &&& P 7 &&& G_6_1)
    ^^^ (P_50_1 &&& P_11_1 &&& P_7_1 &&& G 3) ^^^ (P_50_1vs3 &&& P_11_1 &&& P_7_1 &&& G_2_1)
  let G_48_4 := G 48 ^^^ (P 48 &&& G_47_1) ^^^ (P 48 &&& P_47_1 &&& temp8)
    ^^^ (P 48 &&& P_47_2 &&& G_31_1) ^^^ (P 48 &&& P_47_2 &&& P_31_1 &&& temp4)
    ^^^ (P 48 &&& P_47_2 &&& P_31_2 &&& G_15_1) ^^^ (P_47_2 &&& P_31_2 &&& P_15_1 &&& temp1_G_11_2)
  let G_49_4 := G_49_1 ^^^ (P_49_1 &&& G_47_1) ^^^ (P_49_1 &&& P_47_1 &&& temp8)
    ^^^ (P_49_1 &&& P_47_2 &&& G_31_1) ^^^ (P_49_1 &&& P_47_2 &&& P_31_1 &&& temp4)
    ^^^ (P_49_1 &&& P_47_2 &&& P_31_2 &&& G_15_1)
    ^^^ (P_47_2 &&& P_31_2 &&& P_15_1 &&& temp2_G_11_2)
  let G_50_4 := G_50_1 ^^^ (P_50_1 &&& G_47_1) ^^^ (P_50_1 &&& P_47_1 &&& temp8)
    ^^^ (P_50_1 &&& P_47_2 &&& G_31_1) ^^^ (P_50_1 &&& P_47_2 &&& P_31_1 &&& temp4)
    ^^^ (P_50_1 &&& P_47_2 &&& P_31_2 &&& G_15_1)
    ^^^ (P_47_2 &&& P_31_2 &&& P_15_1 &&& temp3_G_11_2)
  let P_52v7 := P 52 &&& P 7
  let P_53_1vs7 := P 53 &&& P 52 &&& P 7
  let P_54_1vs7 := P 54 &&& P 53 &&& P 52 &&& P 7
  let temp_temp1 := (P 52 &&& G 15) ^^^ (P 52 &&& P 15 &&& G_14_1) ^^^ (P 52 &&& P_15_1 &&& G 11)
    ^^^ (P 52 &&& P_15_1 &&& P 11 &&& G_10_1) ^^^ (P 52 &&& P_15_1 &&& P_11_1 &&& G 7)
    ^^^ (P_52v7 &&& P_15_1 &&& P_11_1 &&& G_6_1)
  let temp2_temp1 := (P_53_1 &&& G 15) ^^^ (P_53_1 &&& P 15 &&& G_14_1)
    ^^^ (P_53_1 &&& P_15_1 &&& G 11) ^^^ (P_53_1 &&& P_15_1 &&& P 11 &&& G_10_1)
    ^^^ (P_53_1 &&& P_15_1 &&& P_11_1 &&& G 7) ^^^ (P_53_1vs7 &&& P_15_1 &&& P_11_1 &&& G_6_1)
  let temp3_temp1 := (P_54_1 &&& G 15) ^^^ (P_54_1 &&& P 15 &&& G_14_1)
    ^^^ (P_54_1 &&& P_15_1 &&& G 11) ^^^ (P_54_1 &&& P_15_1 &&& P 11 &&& G_10_1)
    ^^^ (P_54_1 &&& P_15_1 &&& P_11_1 &&& G 7) ^^^ (P_54_1vs7 &&& P_15_1 &&& P_11_1 &&& G_6_1)
  let temp_G_3_1 := (G 3 &&& P 52) ^^^ (P 52 &&& P 3 &&& G_2_1)
  let temp2_G_3_1 := (G 3 &&& P_53_1) ^^^ (P_53_1 &&& P 3 &&& G_2_1)
  let temp3_G_3_1 := (G 3 &&& P_54_1) ^^^ (P_54_1 &&& P 3 &&& G_2_1)
  let G_52_4 := G 52 ^^^ (P 52 &&& G_51_1) ^^^ (P 52 &&& P_51_1 &&& temp9)
    ^^^ (P 52 &&& P_51_2 &&& G_35_1) ^^^ (P 52 &&& P_51_2 &&& P_35_1 &&& temp5)
    ^^^ (P 52 &&& P_51_2 &&& P_35_2 &&& G_19_1) ^^^ (P_51_2 &&& P_35_2 &&& P_19_1 &&& temp_temp1)
    ^^^ (P_51_2 &&& P_35_2 &&& P_19_2 &&& temp_G_3_1)
  let G_53_4 := G_53_1 ^^^ (P_53_1 &&& G_51_1) ^^^ (P_53_1 &&& P_51_1 &&& temp9)
    ^^^ (P_53_1 &&& P_51_2 &&& G_35_1) ^^^ (P_53_1 &&& P_51_2 &&& P_35_1 &&& temp5)
    ^^^ (P_53_1 &&& P_51_2 &&& P_35_2 &&& G_19_1)
    ^^^ (P_51_2 &&& P_35_2 &&& P_19_1 &&& temp2_temp1)
    ^^^ (P_51_2 &&& P_35_2 &&& P_19_2 &&& temp2_G_3_1)
  let G_54_4 := G_54_1 ^^^ (P_54_1 &&& G_51_1) ^^^ (P_54_1 &&& P_51_1 &&& temp9)
    ^^^ (P_54_1 &&& P_51_2 &&& G_35_1) ^^^ (P_54_1 &&& P_51_2 &&& P_35_1 &&& temp5)
    ^^^ (P_54_1 &&& P_51_2 &&& P_35_2 &&& G_19_1)
    ^^^ (P_51_2 &&& P_35_2 &&& P_19_1 &&& temp3_temp1)
    ^^^ (P_51_2 &&& P_35_2 &&& P_19_2 &&& temp3_G_3_1)
  let P_56v11 := P 56 &&& P 11
  let P_57_1vs11 := P 57 &&& P 56 &&& P 11
  let P_58_1vs11 := P 58 &&& P 57 &&& P 56 &&& P 11
  let temp_temp2 := (P 56 &&& G 19) ^^^ (P 56 &&& P 19 &&& G_18_1) ^^^ (P 56 &&& P_19_1 &&& G 15)
    ^^^ (P 56 &&& P_19_1 &&& P 15 &&& G_14_1) ^^^ (P 56 &&& P_19_1 &&& P_15_1 &&& G 11)
    ^^^ (P_56v11 &&& P_19_1 &&& P_15_1 &&& G_10_1)
  let temp2_temp2 := (P_57_1 &&& G 19) ^^^ (P_57_1 &&& P 19 &&& G_18_1)
    ^^^ (P_57_1 &&& P_19_1 &&& G 15) ^^^ (P_57_1 &&& P_19_1 &&& P 15 &&& G_14_1)
    ^^^ (P_57_1 &&& P_19_1 &&& P_15_1 &&& G 11) ^^^ (P_57_1vs11 &&& P_19_1 &&& P_15_1 &&& G_10_1)
  let temp3_temp2 := (P_58_1 &&& G 19) ^^^ (P_58_1 &&& P 19 &&& G_18_1)
    ^^^ (P_58_1 &&& P_19_1 &&& G 15) ^^^ (P_58_1 &&& P_19_1 &&& P 15 &&& G_14_1)
    ^^^ (P_58_1 &&& P_19_1 &&& P_15_1 &&& G 11) ^^^ (P_58_1vs11 &&& P_19_1 &&& P_15_1 &&& G_10_1)
  let temp_G_7_2 := (P 56 &&& G 7) ^^^ (P 56 &&& P 7 &&& G_6_1) ^^^ (P 56 &&& P_7_1 &&& G 3)
    ^^^ (P 56 &&& P_7_1 &&& P 3 &&& G_2_1)
  let temp2_G_7_2 := (P_57_1 &&& G 7) ^^^ (P_57_1 &&& P 7 &&& G_6_1) ^^^ (P_57_1 &&& P_7_1 &&& G 3)
    ^^^ (P_57_1 &&& P_7_1 &&& P 3 &&& G_2_1)
  let temp3_G_7_2 := (P_58_1 &&& G 7) ^^^ (P_58_1 &&& P 7 &&& G_6_1) ^^^ (P_58_1 &&& P_7_1 &&& G 3)
    ^^^ (P_58_1 &&& P_7_1 &&& P 3 &&& G_2_1)
  let G_56_4 := G 56 ^^^ (P 56 &&& G_55_1) ^^^ (P 56 &&& P_55_1 &&& temp10)
    ^^^ (P 56 &&& P_55_2 &&& G_39_1) ^^^ (P 56 &&& P_55_2 &&& P_39_1 &&& temp6)
    ^^^ (P 56 &&& P_55_2 &&& P_39_2 &&& G_23_1) ^^^ (P_55_2 &&& P_39_2 &&& P_23_1 &&& temp_temp2)
    ^^^ (P_55_2 &&& P_39_2 &&& P_23_2 &&& temp_G_7_2)
  let G_57_4 := G_57_1 ^^^ (P_57_1 &&& G_55_1) ^^^ (P_57_1 &&& P_55_1 &&& temp10)
    ^^^ (P_57_1 &&& P_55_2 &&& G_39_1) ^^^ (P_57_1 &&& P_55_2 &&& P_39_1 &&& temp6)
    ^^^ (P_57_1 &&& P_55_2 &&& P_39_2 &&& G_23_1)
    ^^^ (P_55_2 &&& P_39_2 &&& P_23_1 &&& temp2_temp2)
    ^^^ (P_55_2 &&& P_39_2 &&& P_23_2 &&& temp2_G_7_2)
  let G_58_3 := G_58_1 ^^^ (P_58_1 &&& G_55_1) ^^^ (P_58_1 &&& P_55_1 &&& temp10)
    ^^^ (P_58_1 &&& P_55_2 &&& G_39_1) ^^^ (P_58_1 &&& P_55_2 &&& P_39_1 &&& temp6)
    ^^^ (P_58_1 &&& P_55_2 &&& P_39_2 &&& G_23_1)
    ^^^ (P_55_2 &&& P_39_2 &&& P_23_1 &&& temp3_temp2)
    ^^^ (P_55_2 &&& P_39_2 &&& P_23_2 &&& temp3_G_7_2)
  let P_60v15 := P 60 &&& P 15
  let P_60v3 := P 60 &&& P 3
  let P_61_1_vs_15 := P 61 &&& P 60 &&& P 15
  let P_61_1vs3 := P 61 &&& P 60 &&& P 3
  let P_62_1_vs_15 := P 62 &&& P 61 &&& P 60 &&& P 15
  let P_62_1vs3 := P 62 &&& P 61 &&& P 60 &&& P 3
  let temp_temp3 := (P 60 &&& G 23) ^^^ (P 60 &&& P 23 &&& G_22_1) ^^^ (P 60 &&& P_23_1 &&& G 19)
    ^^^ (P 60 &&& P_23_1 &&& P 19 &&& G_18_1) ^^^ (P 60 &&& P_23_1 &&& P_19_1 &&& G 15)
    ^^^ (P_60v15 &&& P_23_1 &&& P_19_1 &&& G_14_1)
  let temp2_temp3 := (P_61_1 &&& G 23) ^^^ (P_61_1 &&& P 23 &&& G_22_1)
    ^^^ (P_61_1 &&& P_23_1 &&& G 19) ^^^ (P_61_1 &&& P_23_1 &&& P 19 &&& G_18_1)
    ^^^ (P_61_1 &&& P_23_1 &&& P_19_1 &&& G 15) ^^^ (P_61_1_vs_15 &&& P_23_1 &&& P_19_1 &&& G_14_1)
  let temp3_temp3 := (P_62_1 &&& G 23) ^^^ (P_62_1 &&& P 23 &&& G_22_1)
    ^^^ (P_62_1 &&& P_23_1 &&& G 19) ^^^ (P_62_1 &&& P_23_1 &&& P 19 &&& G_18_1)
    ^^^ (P_62_1 &&& P_23_1 &&& P_19_1 &&& G 15) ^^^ (P_62_1_vs_15 &&& P_23_1 &&& P_19_1 &&& G_14_1)
  let temp_G_11_2 := (P 60 &&& G 11) ^^^ (P 60 &&& P 11 &&& G_10_1) ^^^ (P 60 &&& P_11_1 &&& G 7)
    ^^^ (P 60 &&& P_11_1 &&& P 7 &&& G_6_1) ^^^ (P 60 &&& P_11_1 &&& P_7_1 &&& G 3)
    ^^^ (P_60v3 &&& P_11_1 &&& P_7_1 &&& G_2_1)
  let temp2__G_11_2 := (P_61_1 &&& G 11) ^^^ (P_61_1 &&& P 11 &&& G_10_1)
    ^^^ (P_61_1 &&& P_11_1 &&& G 7) ^^^ (P_61_1 &&& P_11_1 &&& P 7 &&& G_6_1)
    ^^^ (P_61_1 &&& P_11_1 &&& P_7_1 &&& G 3) ^^^ (P_61_1vs3 &&& P_11_1 &&& P_7_1 &&& G_2_1)
  let temp3__G_11_2 := (P_62_1 &&& G 11) ^^^ (P_62_1 &&& P 11 &&& G_10_1)
    ^^^ (P_62_1 &&& P_11_1 &&& G 7) ^^^ (P_62_1 &&& P_11_1 &&& P 7 &&& G_6_1)
    ^^^ (P_62_1 &&& P_11_1 &&& P_7_1 &&& G 3) ^^^ (P_62_1vs3 &&& P_11_1 &&& P_7_1 &&& G_2_1)
  let G_60_4 := G 60 ^^^ (P 60 &&& G_59_1) ^^^ (P 60 &&& P_59_1 &&& temp11)
    ^^^ (P 60 &&& P_59_2 &&& G_43_1) ^^^ (P 60 &&& P_59_2 &&& P_43_1 &&& temp7)
    ^^^ (P 60 &&& P_59_2 &&& P_43_2 &&& G_27_1) ^^^ (P_59_2 &&& P_43_2 &&& P_27_1 &&& temp_temp3)
    ^^^ (P_59_2 &&& P_43_2 &&& P_27_2 &&& temp_G_11_2)
  let G_61_4 := G_61_1 ^^^ (P_61_1 &&& G_59_1) ^^^ (P_61_1 &&& P_59_1 &&& temp11)
    ^^^ (P_61_1 &&& P_59_2 &&& G_43_1) ^^^ (P_61_1 &&& P_59_2 &&& P_43_1 &&& temp7)
    ^^^ (P_61_1 &&& P_59_2 &&& P_43_2 &&& G_27_1)
    ^^^ (P_59_2 &&& P_43_2 &&& P_27_1 &&& temp2_temp3)
    ^^^ (P_59_2 &&& P_43_2 &&& P_27_2 &&& temp2__G_11_2)
  let G_62_4 := G_62_1 ^^^ (P_62_1 &&& G_59_1) ^^^ (P_62_1 &&& P_59_1 &&& temp11)
    ^^^ (P_62_1 &&& P_59_2 &&& G_43_1) ^^^ (P_62_1 &&& P_59_2 &&& P_43_1 &&& temp7)
    ^^^ (P_62_1 &&& P_59_2 &&& P_43_2 &&& G_27_1)
    ^^^ (P_59_2 &&& P_43_2 &&& P_27_1 &&& temp3_temp3)
    ^^^ (P_59_2 &&& P_43_2 &&& P_27_2 &&& temp3__G_11_2)
  ⟨[P 0, G 0 ^^^ P 1, G_1 ^^^ P 2, G_2_1 ^^^ P 3, G_3_1 ^^^ P 4, G_4_4 ^^^ P 5, G_5_4 ^^^ P 6,
    G_6_4 ^^^ P 7, G_7_2 ^^^ P 8, G_8_4 ^^^ P 9, G_9_4 ^^^ P 10, G_10_4 ^^^ P 11,
    G_11_2 ^^^ P 12, G_12_4 ^^^ P 13, G_13_4 ^^^ P 14, G_14_4 ^^^ P 15, G_15_2 ^^^ P 16,
    G_16_4 ^^^ P 17, G_17_4 ^^^ P 18, G_18_4 ^^^ P 19, G_19_3 ^^^ P 20, G_20_4 ^^^ P 21,
    G_21_4 ^^^ P 22, G_22_4 ^^^ P 23, G_23_3 ^^^ P 24, G_24_4 ^^^ P 25, G_25_4 ^^^ P 26,
    G_26_4 ^^^ P 27, G_27_3 ^^^ P 28, G_28_4 ^^^ P 29, G_29_4 ^^^ P 30, G_30_4 ^^^ P 31,
    G_31_3 ^^^ P 32, G_32_4 ^^^ P 33, G_33_4 ^^^ P 34, G_34_4 ^^^ P 35, G_35_3 ^^^ P 36,
    G_36_4 ^^^ P 37, G_37_4 ^^^ P 38, G_38_4 ^^^ P 39, G_39_3 ^^^ P 40, G_40_4 ^^^ P 41,
    G_41_4 ^^^ P 42, G_42_4 ^^^ P 43, G_43_3 ^^^ P 44, G_44_4 ^^^ P 45, G_45_4 ^^^ P 46,
    G_46_4 ^^^ P 47, G_47_3 ^^^ P 48, G_48_4 ^^^ P 49, G_49_4 ^^^ P 50, G_50_4 ^^^ P 51,
    G_51_3 ^^^ P 52, G_52_4 ^^^ P 53, G_53_4 ^^^ P 54, G_54_4 ^^^ P 55, G_55_3 ^^^ P 56,
    G_56_4 ^^^ P 57, G_57_4 ^^^ P 58, G_58_3 ^^^ P 59, G_59_3 ^^^ P 60, G_60_4 ^^^ P 61,
    G_61_4 ^^^ P 62, G_62_4 ^^^ P 63],
    G_11_2, P_15_1, P_31_2, P_47_1, P_51_1, P_55_1⟩

/-- The carry output of the 64-bit modules. -/
def cout64 (x_a x_b : Nat → α) : α :=
  let P i := x_a i ^^^ x_b i
  let nets := adder x_a x_b
  let P_63_1 := P 62 &&& P 62 &&& P 61 &&& P 60
  let P_63_2 := P_63_1 &&& nets.P_55_1 &&& nets.P_51_1 &&& nets.P_47_1
  P_63_2 &&& nets.P_31_2 &&& nets.P_15_1 &&& nets.G_11_2

/-- The carry output of the 32-bit modules. -/
def cout32 (x_a x_b : Nat → α) : α :=
  let nets := adder x_a x_b
  nets.P_31_2 &&& nets.P_15_1 &&& nets.G_11_2

/-- The carry output of the 16-bit modules. -/
def cout16 (x_a x_b : Nat → α) : α :=
  let nets := adder x_a x_b
  nets.P_15_1 &&& nets.G_11_2

end Circuits


/-- The module `ADD8`. -/
def add8 (x_a x_b : BitVec 8) : BitVec 8 := word 8 (adder8 x_a.getLsbD x_b.getLsbD)

/-- The module `ADD16`. -/
def add16 (x_a x_b : BitVec 16) : BitVec 16 := word 16 (adder x_a.getLsbD x_b.getLsbD).wx

/-- The module `ADD32`. -/
def add32 (x_a x_b : BitVec 32) : BitVec 32 := word 32 (adder x_a.getLsbD x_b.getLsbD).wx

/-- The module `ADD64`. -/
def add64 (x_a x_b : BitVec 64) : BitVec 64 := word 64 (adder x_a.getLsbD x_b.getLsbD).wx

/-- The module `ADDC64`, with the outputs `wx` and `cout`. -/
def addc64 (x_a x_b : BitVec 64) : BitVec 64 × Bool :=
  (word 64 (adder x_a.getLsbD x_b.getLsbD).wx, cout64 x_a.getLsbD x_b.getLsbD)

/-! ### What the nets compute -/

section Nets

variable {α : Type} [Signal α]

/-- The positions at which a carry is propagated. -/
def propagate (a b : Nat → α) (i : Nat) : α := a i ^^^ b i

/-- The value by which bit 51 of `ADD64` is wrong.  The net `P_50_1vs3` has the factor `P[30]` where
the carry into bit 3 has to be propagated by `P[3]`. -/
def fault (a b : Nat → α) : α :=
  all (propagate a b) (List.range' 4 47) &&& ~~~ propagate a b 3 &&& carry a b 3

/-- The bit of the adder at a position. -/
def faultySum (a b : Nat → α) (i : Nat) : α :=
  if i = 51 then sum a b i ^^^ fault a b else sum a b i

/-- The carry out of the lowest 12 positions is propagated at the given ones. -/
def chain (a b : Nat → α) (l : List Nat) : α := carry a b 12 &&& all (propagate a b) l

end Nets

theorem eval_fault {α : Type} [Signal α] (v : Nat → α) (a b : Nat → Expr Nat) :
  (fault a b).eval v = fault (fun i => (a i).eval v) (fun i => (b i).eval v)
  := by
  change ((all (propagate a b) (List.range' 4 47)).eval v
    &&& (~~~ propagate a b 3 : Expr Nat).eval v) &&& (carry a b 3).eval v = _
  rw [eval_all, eval_carry]
  rfl

theorem natural_faultySum (n : Nat) :
  Natural fun _ _ a b => (List.range n).map (faultySum a b)
  := by
  intro α _ v a b
  rw [List.map_map]
  apply List.map_congr_left
  intro i _
  rw [Function.comp_apply, faultySum, faultySum]
  split
  · change (sum a b i).eval v ^^^ (fault a b).eval v = _
    rw [eval_sum, eval_fault]
  · apply eval_sum

theorem adder8_eq (x y : Nat → Bool) :
  adder8 x y = (List.range 8).map (sum x y)
  := by
  have hf : Natural fun _ _ a b => adder8 a b := fun _ _ _ _ _ => rfl
  apply hf.eq_of_norm (natural_sum 8) covers_difference
  decide +kernel

/-- Each bit of the adder is that of the sum, except for bit 51. -/
theorem adder_wx (x y : Nat → Bool) :
  (adder x y).wx = (List.range 64).map (faultySum x y)
  := by
  have hf : Natural fun _ _ a b => (adder a b).wx := fun _ _ _ _ _ => rfl
  apply hf.eq_of_norm (natural_faultySum 64) covers_difference
  decide +kernel

theorem natural_chain (l : List Nat) :
  Natural fun _ _ a b => [chain a b l]
  := by
  intro α _ v a b
  change [(carry a b 12).eval v &&& (all (propagate a b) l).eval v] = _
  rw [eval_carry, eval_all]
  rfl

theorem cout16_eq (x y : Nat → Bool) :
  cout16 x y = chain x y (List.range' 12 4)
  := by
  have hf : Natural fun _ _ a b => [cout16 a b] := fun _ _ _ _ _ => rfl
  apply List.singleton_inj.mp
  apply hf.eq_of_norm (natural_chain _) covers_difference
  decide +kernel

theorem cout32_eq (x y : Nat → Bool) :
  cout32 x y = chain x y (List.range' 12 20)
  := by
  have hf : Natural fun _ _ a b => [cout32 a b] := fun _ _ _ _ _ => rfl
  apply List.singleton_inj.mp
  apply hf.eq_of_norm (natural_chain _) covers_difference
  decide +kernel

/-- The groups that end in 35, 39, 43 and 59 are missing in the carry output. -/
theorem cout64_eq (x y : Nat → Bool) :
  cout64 x y = chain x y (List.range' 12 20 ++ List.range' 44 12 ++ List.range' 60 3)
  := by
  have hf : Natural fun _ _ a b => [cout64 a b] := fun _ _ _ _ _ => rfl
  apply List.singleton_inj.mp
  apply hf.eq_of_norm (natural_chain _) covers_difference
  decide +kernel

theorem chain_iff (x y : Nat → Bool) (l : List Nat) :
  chain x y l = true ↔ 2 ^ 12 ≤ value x 12 + value y 12 ∧ ∀ i ∈ l, x i ≠ y i
  := by
  change (carry x y 12 && all (fun i => x i ^^ y i) l) = true ↔ _
  rw [Bool.and_eq_true, carry_iff, all_iff]
  simp only [bne_iff_ne]

theorem fault_iff (x y : Nat → Bool) :
  fault x y = true ↔
    x 3 = y 3 ∧ 2 ^ 3 ≤ value x 3 + value y 3 ∧ ∀ i, 4 ≤ i → i ≤ 50 → x i ≠ y i
  := by
  change ((all _ _ && !(x 3 ^^ y 3)) && carry x y 3) = true ↔ _
  rw [Bool.and_eq_true, Bool.and_eq_true, carry_iff, all_iff, Bool.not_eq_true',
    bne_eq_false_iff_eq]
  constructor
  · rintro ⟨⟨hall, h3⟩, hcarry⟩
    refine ⟨h3, hcarry, ?_⟩
    intro i hi hi'
    apply bne_iff_ne.mp (hall i (List.mem_range'_1.mpr ⟨hi, by omega⟩))
  · rintro ⟨h3, hcarry, hall⟩
    refine ⟨⟨?_, h3⟩, hcarry⟩
    intro i hi
    obtain ⟨hi, hi'⟩ := List.mem_range'_1.mp hi
    apply bne_iff_ne.mpr (hall i hi (by omega))

/-! ### The modules -/

theorem add8_eq (x_a x_b : BitVec 8) :
  add8 x_a x_b = x_a + x_b
  := by
  rw [add8, adder8_eq, word_sum]

/-- Up to 51 bits the adder adds. -/
theorem word_adder {n : Nat} (hn : n ≤ 51) (x y : Nat → Bool) :
  word n (adder x y).wx = word n ((List.range n).map (sum x y))
  := by
  apply BitVec.eq_of_getLsbD_eq
  intro i hi
  rw [getLsbD_word, getLsbD_word, adder_wx, getD_map_range _ (by omega), getD_map_range _ hi,
    faultySum, if_neg (by omega)]

/-- Without a fault the adder adds. -/
theorem word_adder_of_fault {x y : Nat → Bool} (h : fault x y = false) :
  word 64 (adder x y).wx = word 64 ((List.range 64).map (sum x y))
  := by
  apply BitVec.eq_of_getLsbD_eq
  intro i hi
  rw [getLsbD_word, getLsbD_word, adder_wx, getD_map_range _ hi, getD_map_range _ hi, faultySum]
  split
  · rw [h, xor_bool, Bool.xor_false]
  · rfl

theorem add16_eq (x_a x_b : BitVec 16) :
  add16 x_a x_b = x_a + x_b
  := by
  rw [add16, word_adder (by decide), word_sum]

theorem add32_eq (x_a x_b : BitVec 32) :
  add32 x_a x_b = x_a + x_b
  := by
  rw [add32, word_adder (by decide), word_sum]

/-- The adders of narrower width add. -/
theorem toNat_add16_add32 :
  (∀ x_a x_b, (add16 x_a x_b).toNat = (x_a.toNat + x_b.toNat) % 2 ^ 16)
    ∧ ∀ x_a x_b, (add32 x_a x_b).toNat = (x_a.toNat + x_b.toNat) % 2 ^ 32
  := by
  constructor
  · intro x_a x_b
    rw [add16_eq, BitVec.toNat_add]
  · intro x_a x_b
    rw [add32_eq, BitVec.toNat_add]

/-- `ADD64` adds if and only if bit 51 is right. -/
theorem add64_eq_iff_fault (x_a x_b : BitVec 64) :
  add64 x_a x_b = x_a + x_b ↔ fault x_a.getLsbD x_b.getLsbD = false
  := by
  constructor
  · intro h
    have h51 : (add64 x_a x_b).getLsbD 51 = sum x_a.getLsbD x_b.getLsbD 51 := by
      rw [h, sum_getLsbD _ _ (by decide)]
    rw [add64, getLsbD_word, adder_wx, getD_map_range _ (by decide), faultySum, if_pos rfl] at h51
    apply Bool.xor_right_inj.mp
    rw [Bool.xor_false]
    apply h51
  · intro h
    rw [add64, word_adder_of_fault h, word_sum]

/-- `ADD64` adds if and only if no carry into bit 3 is lost there while the bits 4 to 50 would
propagate it. -/
theorem add64_eq_add_iff (x_a x_b : BitVec 64) :
  add64 x_a x_b = x_a + x_b ↔
    ¬ (x_a.getLsbD 3 = x_b.getLsbD 3 ∧ 8 ≤ x_a.toNat % 8 + x_b.toNat % 8
      ∧ ∀ i, 4 ≤ i → i ≤ 50 → x_a.getLsbD i ≠ x_b.getLsbD i)
  := by
  rw [add64_eq_iff_fault, ← Bool.not_eq_true, fault_iff, value_getLsbD, value_getLsbD]
  rfl

theorem add64_ne_add :
  add64 0x7fffffffffff7#64 1#64 ≠ 0x7fffffffffff7#64 + 1#64
  := by
  decide +kernel
