import CodeAtlas.Text.Packed

/-!
# The composed compatibility form of a name

Every character is replaced by its full compatibility decomposition, marks are put in canonical
order, and what can be composed is composed again. Hangul syllables are computed. The tables are
packed and hold the characters that names can hold, but for compatibility ideographs and the
presentation forms of Arabic letters, which stay as they are.
-/

namespace CodeAtlas.Text

/-- Runs of characters that decompose alike: gap, form, and the code points the first one stands
for. Further characters of a run stand for the same, with a last code point that grows by one. The
form is five times the number of further characters, plus the number of code points, or zero for
two that compose again. -/
def decompositionTable : String :=
  "qF|6^COVEPg'aAm`v~OP>]KNA5[6+=fMOSz2pB?Q7xy5(jOHd`2&cY|D*WGdo#WMwc;.bq7mz)'ZH1d>#qXs=44(<^EDLw|+A6Gq;^p;u2b
~xAOaVv6+j7HMxZ!'t,](eD2U+S_&vCy>RadQ@p5Bd5&P<3W6%!HJig:rRO3T'@%;RvJgpfH9:NGD;(2PpEABxq[L7~=u_H5!#Xl%#zW:q!:^H
FsJdB[R:Ab'OL&s4.p)TvnDm9>aB!mw5'oNVeWsz._u`g&vf1EYMcSB!~+qo0tX6O.|#c3C/WoYu$$Z'V[Fp#*=6oXklOXLN'o/:YX.#_=TnJE
:B;n0!T%K]OvQ8Mub$``~R73.hI5&@DQVSXvpdieJ_FwvHGSL/mo9?T6hz2AH99+x,.1~d;0HJcVXTr$~!2u@@[8>EzF6&bsDu*.lPIBq6b]]A
?6?.%e>memA>ne%w%J8Ac'.>8~Y*9e04]|pUGjzu)6CU=Tez3:R|ZT1PCaun3aj+cG>`L+A*x%)pRDGH[plT=I+LVt~K:g4V:GRvQ>.5*jE|/R
o*BLk_XxuquuFY!!R')?a2'D$I&`A$p^1Eb~H'qBa!,qrd;:8?UkB!K'KvI5!aUJ`tPY/]PpY86kb%NieH0:3u8Q6sK5C&kk/TnoO7fA`9:9ai
]$hBpy+wPuM#d;Exy8.=EYb=51<,#uYbRFsR#R!R;Gg^0ZGqHHFl6'VuYl4QTz|@7;8io;B!%cb|gaX2^zm[cYaHe%Z`&cn9WUCmR3OI=_dUJE
bV_N10kR~lX#8Z4=halP=)W(>0:&],ql5m&<n6=ry5HD9O|i;GCEpn%dQZF;Cv8~s;0SgE9ySnD010Ev@$ZBW,i;JBHZ[9.N|F?1ISYXJZ)6x)
;'SxD,v>SRt6X|9'CsDiJ~/,VzRex#3i9sz;zypd[)jm#uyKJ!&Pz,:O^|CaBni7kf2;$:JZYW8FXug`)%QuoejbVlZqHYh>QDQ7:mN0:'uj6!
?'xcfq<e%KhF|sE^/1<>aj`MG]Md2:6C)v(gry*<G%(kZoWbDSRsQ*WM1Xt[vfwn|Gh17:>B(t!brsewA?=0bo*Bk=p=<Gl|Xq/&4c2eZN)khB
21JgU=b_'fyGbF28XhH3~h?J`bHdEm$E/@Xx`,n/l!6M8F*D~9aV;T6XouS6J~7(zB;w&;%V'~s$3#aP6AX,I]'##kAVR#O_!$3n[$BY&Tx5xG
ob>coQpO%BNkwP^Ye!xU^3rYs!wC4WrM:sp9Hw~BiJnY&t`kuMIJT&bmaG/N)NSoWor%l<7N:V/c%lsJO28?jaKkYH41&I/ZW)Q0cqolVCXq29
`O.&poqoN7j,A./P(nsf_Zb2Aq|kG~]FzijoTDf(:]5l.<!r2Wpfk2q'xXqDGiMUwB6Pp~WF8*tr9#JL!0B9ev|As%V/F!B;+.k7PdKNeMO2,*
Qm!%''=&CfzhPBR6&qt$M3YZOhpqVMzLC*^aq<V.VO]<LY&%X:PQN5O;QBk,D$PVx/jIy,d;Y2<vJW(gR)][V_=Tsj`n#LZo!)A[,6b1u#A3c1
^^=~7.?NbOWt8e@$md;d/w7G!p'|MD*OJ+$WoWJrs%6.MkZ%^Ke,P0ku.<]e0eU/[K6YuSpj%@SEilll>%11tTj2|+(Ao<)#!7@Or2:9)B4@is
i/Ex,r<2XK9^7#AFI'x4?B;U$r!/t^Laqw#9MfD#ZiXi.o4L*C'9p.x3'm].t+*$z8>/sB$.Jn%LUX]U#<;MZxMkdqYtBWKS4EASNG4PPzat%Y
2*vHLW@ApREK7GkvTQ|+8cvn%k[<ecO5$>A(%gRg[b7Ev[J,D<KJ]$C7Uque0d)[L_gUuD66Gx.fy/PGH'~Q`&1=<x$rKas:P6|C,ukFP5*$]Q
!H*x.GXPp,5!VaEKmd:Pyi*R!ZWfvBbjYY<~^d_|pGPHrj4=SOT/=VE2ih7a=J&'KF7x[I[*VvrQ0&.8PNmjZ6AFgCilNdRe~/U&[>99Ws[1F_
|*h$:IFm%&?/>Fj4De:nJsuWhyN%BUI*>5IF1M(#kGoiy.n`.Cg:;(X0*5g?|rK<uBI@nYa,4L`&in'5`VSw#PV|PaXw~c%VUDFi`n&unrKS_]
`28_r:CaBliqCtMr@+$/3=j?beVDBlvOZd3FXK`@mMwc7=%.E*TwUnZ=jj;4UI2Fzgz'4T$a@aP0bD)x]zWTB+MJ`)@4PCYo+q&b'=C!C9BorZ
VP@pQ=5/)jMTlM>$Cm.WuP~QJ8ZZtAKAk_T*K@*G2fU3V9y|]ifZ3Pb`G&!o?Y_#Up$BRoJdCD!eu78B!P.mZs$EkJdKL^*/uT7:XlcGQ!#rO,
!gVtkuvNr+Iw]pRvhTXPcG8oYgB=js,h8w7xPBB8hmhq`IP$E:Af@*)i8`'3rx~;ZaGASvAMtWZsj/[$!kxY4!^fVU|Pmnc(>EsBG;N/19~9U~
[wr,!*6JCX7#K]!B|N~Hgx<0wZ4D$;<`>m.[qEsaj`fE5/4_ppxK1I~$w9AcZv?bhDe/YhwV(;dxG;X+bI|6quZA4(jI>s.!>^>i%h(be22HxQ
uipj/9as*eT^k1/0&K1)J?aVrrV)2f<PJI6a:52W^%y,Xn$,K%A(8:>0@Z<dCJ?M+to`=qn_T@fN3$;<Kd5UO]w~|lv`H.qpEK<<fl|Zk`]V3Z
$SgN0wqp_|l&`b?liuoo$0``P78#(akuYFKoar)U91w!XYg/=R)C74,L_ay?9EgsLd_R>I#;LRBQejPF&oAG;#'z.+#fEKG?gRb6$NOu_P>,&D
;JT2$!y&4y8UOFmU^QP5~Z=@1tCw?YjQz6ypaCj)=mUJjnblH:mfldylkJlL^lx3V'vPn/WANi0iZwJQ7Z#aV5UE5ysT&TfMA5[v/`O;6QlrGe
3BtAY|QY$v5'.PzDEBG`MNmtl]sB~NR&|y8m`eXt6ok_%x.TpvI*VzRK1KS$9[.Yj.3X8(,H,(f/nr=%j_)jN_:<CY[]:;Q6)3Jylk.vvG@zV;
aoBkSR'#RZG]5zJ>0$DZ15_3E]^/LLz4'zl#+sJvyX~QJ=gj1g#VuFw_ta`E)UQMMZ@NBku;*F<MB<^H[7d8D'vcC4clF%Xl*ZYUNw>AWP5v3Q
jtq`umaAfq|e23uyEJ]4^.oK2!3~1aQa4TAsSO6nax*@6~v1$b))u>Q6xJp+>4zF15Vm>)k|fd`fG3^6t+HbwUrASaL8Wtx_PB[<5tM^TF~fpR
1,@<r2KL!?oLz|AmPV'C#1D;Uv?;j>~UqFbw)J~rg$1pfEhHf>|m5tC),;%%uBq997~dF%xF3ZgBw<Qb8dIVYcGuwqPf8pos!Vs3SWZeCx&fpq
2xaEBb109OtZYVamhgu*Wfpo[M5ef;_FMkI8)<5jkK4!l?wq)WXx0]2ZfXTVa?9L![<`B>?dPvz*R/w<#ua3oqgO'Fl<BT,/L:MZRuQ[;8[@uA
e:>;tPHJ8f+/O)m?@p^L5xK1*Z6u`:IB<Y#CHLY!`ZV"

/-- Ranges of marks with their class: gap, length less one, class. -/
def markTable : String :=
  "Dp)|Sp9]+%SS]JL!OX~&i>Yr&huFqGe<jiMHdI[#SK/9CB;SC':%+3IZ#D/N!ZF3Aa=PmrC?jXAAs?45Y!`26E%[Q3ZbueYT`3LX><xu.)c
KwMEu9Yii8/gJ__*LO=|=B/S^CpCV$e(!yg+(Rxv)agw('CP6)?&K3K).3uU@Q/rrA#mpj+Ucp1a91.2#LcDV:Msk[C$OyM.?S+;oz~Y1Q/32E
UlrRZmt/$B$Yh!qV%/BHnw91gC8p3!?nc%;b]f>TUOIPI%U$_bB!'e<_k_d5m4nPwdJ2)H0|FbZdJAgl/Y+I3sQ6BQsKCaPRE[hu9XwHkXu`~`
7yMo!&Vh6UIfj,?[Nc[<R41/DXYN%Tute0i1&DhvN6%jU$V+o8v&*jNSHVpP`^%r|U>4XZuF0'f6JqdGW9HkR%?O_6LblnnjPK3],us,H!hF8X
&wo!]7:9cEEL7sIur*CZ)>Ms6:4n+30R_pN6#oQ!l|VHu4l1D):sm(njI*g/2,Ehw$:3O50sjx%:hB]<;=p[gPa~Zg=cYtE>H_tCoU`*LfPyu$
_yUXwurk7k6a)kp*7ERZ6+D~iqcnBE'aXtykw,JS*(mE8WV!xs#W<2e.47RZB!4wubO=I+$&gL4+j>O#/JY*+vaR:R~R0M7SD~@R_%A0(E)rOC
?w$aOho$9)Spx&!x7^UT'RxFs)QDrie^RV9LgUL*xrU>E|_uUf@M:/1iiSuFG<!T~C:>,6b<S%|sfaOsAOz=+?b2xF;S*(WRWUPe4LJMO6#G:'"

/-- A run of characters that stand for the same code points but for the last. -/
structure Decomposition where
  first : Nat
  last : Nat
  composes : Bool
  initial : List Nat
  final : Nat

namespace Decomposition

def codes (d : Decomposition) (code : Nat) : List Nat := d.initial ++ [d.final + (code - d.first)]

def compose (d : Decomposition) (a b : Nat) : Option Nat :=
  if d.initial = [a] ∧ d.final ≤ b ∧ d.first + (b - d.final) ≤ d.last then
    some (d.first + (b - d.final))
  else none

end Decomposition

def readDecompositions (ns : Array Nat) :
    (steps at' previous : Nat) → Array Decomposition → Array Decomposition
  | 0, _, _, acc => acc
  | steps + 1, i, previous, acc =>
    match ns[i]?, ns[i + 1]? with
    | some gap, some form =>
      let count := if form % 5 = 0 then 2 else form % 5
      let codes := (List.range count).map fun k ↦ (ns[i + 2 + k]?).getD 0
      let first := previous + gap
      readDecompositions ns steps (i + 2 + count) (first + form / 5)
        (acc.push ⟨first, first + form / 5, form % 5 = 0, codes.dropLast, codes.getLastD 0⟩)
    | _, _ => acc

def decompositions : Array Decomposition :=
  let ns := numbers (Packed.read 14757 decompositionTable)
  readDecompositions ns ns.size 0 0 #[]

def searchDecomposition (code : Nat) : (steps low high : Nat) → Option (List Nat)
  | 0, _, _ => none
  | steps + 1, low, high =>
    if low < high then
      let middle := (low + high) / 2
      match decompositions[middle]? with
      | none => none
      | some d =>
        if code < d.first then searchDecomposition code steps low middle
        else if d.last < code then searchDecomposition code steps (middle + 1) high
        else some (d.codes code)
    else none

/-- The full decomposition, to a depth: the first of a pair may be a pair again. -/
def decompose : (depth : Nat) → (code : Nat) → List Nat
  | 0, code => [code]
  | depth + 1, code =>
    if 0xAC00 ≤ code ∧ code ≤ 0xD7A3 then
      let s := code - 0xAC00
      let lv := [0x1100 + s / 588, 0x1161 + s % 588 / 28]
      if s % 28 = 0 then lv else lv ++ [0x11A7 + s % 28]
    else
      match searchDecomposition code (decompositions.size + 1) 0 decompositions.size with
      | none => [code]
      | some codes => codes.flatMap (decompose depth)

def markClasses : Array (Nat × Nat × Nat) :=
  let ns := numbers (Packed.read 2665 markTable)
  let step (acc : Array (Nat × Nat × Nat) × Nat) (i : Nat) : Array (Nat × Nat × Nat) × Nat :=
    let low := acc.2 + (ns[3 * i]?).getD 0
    let high := low + (ns[3 * i + 1]?).getD 0
    (acc.1.push (low, high, (ns[3 * i + 2]?).getD 0), high)
  ((List.range (ns.size / 3)).foldl step (#[], 0)).1

/-- The class of a mark; zero for a character that starts a group. -/
def markClass (code : Nat) : Nat :=
  if code < 0x300 then 0
  else
    match markClasses.find? fun e ↦ e.1 ≤ code && code ≤ e.2.1 with
    | some e => e.2.2
    | none => 0

/-- Puts one code point into a list that ends in marks, before all marks of a higher class. -/
def insertMark (cls code : Nat) : (reversed : List Nat) → List Nat
  | [] => [code]
  | d :: rest =>
    if markClass d > cls then d :: insertMark cls code rest else code :: d :: rest

def orderMarks (codes : List Nat) : List Nat :=
  (codes.foldl (fun reversed code ↦
    match markClass code with
    | 0 => code :: reversed
    | cls => insertMark cls code reversed) []).reverse

def compositions : Array Decomposition := decompositions.filter (·.composes)

def composePair (a b : Nat) : Option Nat :=
  if 0x1100 ≤ a ∧ a ≤ 0x1112 ∧ 0x1161 ≤ b ∧ b ≤ 0x1175 then
    some (0xAC00 + ((a - 0x1100) * 21 + (b - 0x1161)) * 28)
  else if 0xAC00 ≤ a ∧ a ≤ 0xD7A3 ∧ (a - 0xAC00) % 28 = 0 ∧ 0x11A8 ≤ b ∧ b ≤ 0x11C2 then
    some (a + (b - 0x11A7))
  else compositions.findSome? (·.compose a b)

/-- Composes a text: `starter` is the last character that marks can join, `marks` the characters
after it that could not be joined, in reverse, and `done` what precedes it, in reverse. -/
def composeRest : (starter : Option Nat) → (marks done rest : List Nat) → List Nat
  | none, _, done, [] => done.reverse
  | some s, marks, done, [] => (marks ++ s :: done).reverse
  | none, _, done, code :: rest =>
    if markClass code = 0 then composeRest (some code) [] done rest
    else composeRest none [] (code :: done) rest
  | some s, marks, done, code :: rest =>
    let cls := markClass code
    let blocked :=
      match marks with
      | [] => false
      | m :: _ => markClass m = 0 || markClass m ≥ cls
    match (if blocked then none else composePair s code) with
    | some joined => composeRest (some joined) marks done rest
    | none =>
      if cls = 0 then composeRest (some code) [] (marks ++ s :: done) rest
      else composeRest (some s) (code :: marks) done rest

def compatibilityForm (s : String) : String :=
  if s.toList.all fun c ↦ c.toNat < 128 then s
  else
    let codes := s.toList.flatMap fun c ↦ decompose 4 c.toNat
    String.ofList ((composeRest none [] [] (orderMarks codes)).map Char.ofNat)

end CodeAtlas.Text
