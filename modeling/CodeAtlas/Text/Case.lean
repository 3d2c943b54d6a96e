import CodeAtlas.Text.Packed

/-!
# Upper and lower case

Every letter is converted by its own mapping; in upper case some letters become two or three. In
lower case the dotted capital I becomes two characters, and the capital sigma at the end of a word
takes its final form. Letters with a counterpart of the other case come in runs that all lie equally
far from their counterparts. A table lists, for each run, the gap to the one before it, its count,
its stride and the folded distance: twice the distance, less one below zero.
-/

namespace CodeAtlas.Text

/-- A run of letters that all lie equally far from their counterparts. -/
structure CaseRun where
  first : Nat
  last : Nat
  stride : Nat
  up : Nat
  down : Nat
deriving Inhabited

namespace CaseRun

def decode (table : String) : Array CaseRun :=
  let ns := numbers table
  let step (acc : Array CaseRun × Nat) (i : Nat) : Array CaseRun × Nat :=
    let at' (k : Nat) : Nat := (ns[4 * i + k]?).getD 0
    let first := acc.2 + at' 0
    let folded := at' 3
    (acc.1.push
      { first := first
        last := first + (at' 1 - 1) * at' 2
        stride := at' 2
        up := if folded % 2 = 0 then folded / 2 else 0
        down := if folded % 2 = 1 then (folded + 1) / 2 else 0 }, first)
  ((List.range (ns.size / 4)).foldl step (#[], 0)).1

/-- The run that spans a code point, among those of a part of the table. -/
def search (runs : Array CaseRun) (code : Nat) : (steps low high : Nat) → Option CaseRun
  | 0, _, _ => none
  | steps + 1, low, high =>
    if low < high then
      let middle := (low + high) / 2
      match runs[middle]? with
      | none => none
      | some run =>
        if code < run.first then search runs code steps low middle
        else if run.last < code then search runs code steps (middle + 1) high
        else some run
    else none

/-- The counterpart of a character, or the character itself if it has none. -/
def convert (runs : Array CaseRun) (c : Char) : Char :=
  match search runs c.toNat (runs.size + 1) 0 runs.size with
  | some run =>
    if (c.toNat - run.first) % run.stride = 0 then Char.ofNat (c.toNat + run.up - run.down) else c
  | none => c

end CaseRun
/-- The runs of letters that have an upper-case form of one letter. -/
def upperTable : String :=
  "ro@V|HqFt.fQ#U%ce>d3bxy^!TqmsuLHvC3ZnXUfFH$Jt$2hFIcrG3O[drNvu2Hd&@':BNxCWE3CLbZbAd[nt`wpAuMeMs1P.;>7H.D?#s`
8<R(ktjY*6~BOx|Rp]n4u`3E$XVCUrdnsVIjDZVi&7B[5mHP]+=Gb.v8&I(e!qKH8(HlBf&nbA(0WahP`nG?4Hm+9E/hx>pmn(QSaH/d)!WZ=B
oP+OY;Y_f563L)m!O^mfpB]C2~m9:g5%_2W$pIxp'@gGrAWYyb+%,I?@wk0j^4qmE>09d^C'O;G_$mM.mW#ynN#m;asy`,10pv+3exkQ>APalC
=cOd|<'.kQ.ZGF<&5S`k@A&I|/p`e;Rb(<I,=a@)9r+'+l4H<H.%O$_&o|cF068/]HSwD$i@'jgdEgHhw2~_.(rNJdTyHM#y<Bqa&c&4XlEJ?1
V^`~]~f:)D;Y~]F~Gc)iaSD/<7yZkY5sBEMlw|rFDJz?>`0upoIncP@]0'I;c]>;iU`8Y~aaK@/Uk5&xF9AQ(.Hen<Xs?EV:bCSuR!$b`S4qOr
m|54Mn53Mtya!+X:o<m5DIr=<2us3WQ)ALgO.VMFY/1g:u5#h)wl>8<)MJfBNssVe.%._SNe%^4p3.!jNPOT8ij&WY&zv:S"

def upperRuns : Array CaseRun := CaseRun.decode (Packed.read 1778 upperTable)

/-- The letters that become several: the letter and its three replacements, zero for none. -/
def expandedTable : String :=
  "o`[ii^)W$;z;ZZO|:aBDhY8=Ly#WMWLlqc|$rEr_<$)XO9aia;0d&SSm0A~Wm`9oc!XJl0_nfw!o|oJhaLO1&8<E3T[].oBZ|2?QaLzoO*Q
B|uFhJTy@l+#_WS2Il`CGtO_J)Ab6UPa^_I7bHGq';#R1jmr:r196w2[Hf!PRhD#u<BR>!@e_JH[JvQCnC<%3~AzpWli#|f&9Y&8'V]fBVrGR>
~7+V=jyqr[b>Zl8/2tJe'z$dsGt*pfd1ECxVxE[Xwahs6|]KL`QGfb7rkpWMYc)HEcjABzg^[ngL#lrG&|xF@s>Wer#l5w4DLNz;`+UUy+Ag;$
>6^1R!_a$8A<U[YDpuo>%K%Hn$CV"

def expansions : List (Nat × List Char) :=
  let ns := numbers (Packed.read 1309 expandedTable)
  (List.range (ns.size / 4)).map fun i ↦
    let at' (k : Nat) : Nat := (ns[4 * i + k]?).getD 0
    (at' 0, ([at' 1, at' 2, at' 3].filter (· != 0)).map Char.ofNat)

def upperChar (c : Char) : List Char :=
  if c.toNat < 128 then [c.toUpper]
  else
    match expansions.find? fun e ↦ e.1 == c.toNat with
    | some (_, cs) => cs
    | none => [CaseRun.convert upperRuns c]

def upper (s : String) : String := String.ofList (s.toList.flatMap upperChar)
/-- Letters whose presence makes a sigma final: those that have case and are not skipped. -/
def casedTable : String :=
  "sN1C&/]:usObOnHV~0cYrkvWnX,wH%t<WMtDJR)xS7ElWz$i:4I'IRKX?6(e[obC7v#8PRCp'u;]!Y&O|+M>%,keIE,ZvZzD8OT|dr*~';i
MQu;jbW3B#,ts)&@`j!Z%GEsv:_rC^=u=h%R2wK*4jK?q4l+4:_9r!h?<[![5!GmXPQ9av<)cn/sSf9+JAc!NAd)kBjDWjgh_dwfTP2N]h7'/m
F1tkX$P*aa$b,+Bmzar?HZ,uBXW7R/BsSwfZ8q?TS%1izQ7WGheTyDA*br@Z/u`K_X3T1v/,E`+/'vp%lC_Z"

def casedRanges : Ranges := Ranges.decode (Packed.read 668 casedTable)

/-- Characters that are skipped in the search for a letter that has case. -/
def skippedTable : String :=
  "sjAn!>]l8BY3q_N<vb[Sbfm87:@P9+Doi`]WUL^b!V*s[QcG?Q>~]2=/Qqxp9qkT|E&=NB/QA^wOlDT1=|qC#h8Xl8$SBM^cKtzs;/jK>DF
HWUIg*yGzh`ddk7`tn8~|!#|y=.h6ojxFPoFepWNAoNZT^!1YoHw?)BiM+&riKj[RH(sLM9l+uGnzeJgjwp!GN!yp.[qK6UT;;dCF^Qj=+yUuM
A=VI8ky*%h,mfO#Dpg~Naj34:y:!?##!(Dee^8(vf(kFpptTr~vo:6r6Os^<70&B_HscN4rhU)u%S`SzZNhFwNpi9)xeuvUPqq:g@%JRfJeMoO
0G7n!$'C%'UCN:N`8H2hDeMQ@|.F8_nNrc6%V+(*Vx>%V_.Qm4I:GBpbiE~Wi/YA$pXUZv'gW)XY?^kx49d`)LF?81I94#+EATVzfDX:5$Ou+:
v,t%&i2S>b7CB0e|/!+I:[@:&$0KZ%SB/@:pnHO93C1Gd*,)$5Mx(2zN0s.%t_(ZaMJ|cQ;NK*X=~JTZAHM.).d=xvM+t,?'~Nvn:(T]dQPk;;
|laLbIF++)+cfPA|dQ7WH#hg^h=%=>#2t#,Q,.vcL@|7j#]m6fQz*V~|iN*8V,6ROi=jq]_vRfj92zv]IS.LXu028+8mFqpF@'K^(396xVV>w|
#'C#!,*6j+)O<nY[#N8:3_o(MP2T6EBX3R<C,kFag^S7`Xp^IVeT0Zzxa6juJ`I1vr=;k&]2EK?SsbZy|@DMNOPL[o^m.Orf7_/`t68xIVC$)F
,:j)$y%a"

def skippedRanges : Ranges := Ranges.decode (Packed.read 1878 skippedTable)

/-- The runs of letters that have a lower-case form. -/
def lowerTable : String :=
  "sN1Cva+:H5_ez^8NoJNr=3qv3tj=M.jfFPlS)~L8w'))OLfv1iFd,7ymyd#[*mOLMEVX)0?eE/@[$LCZ??^B$7@M~[U*rThH5y.m$C#`f(e
/KCY8YSsy7uXFrs24xjBg+z4o!5<!n^adq#`nKS!g)z#sMZ/S$?g'%w1Q>7zNSssU=oX%Ku9uF(hN^@JlN/kN*Pr9rAUyJkn[1)Jbbm&oyT5D'
rZz+HOQfBFQb1%08:3[gh]lLQGR_BQ,bOY2b,tuC;+Nr2l]4$D!`k<ztH9J=sPvh&?nc1zjNmK&%K5?o#u`+mKd]g<NLm`ANACoT425^ju_DJZ
f@0adhC~4[`qH8GUgt%.vMpi!+@V@g4/V.<$vnfEDw,C~hqvdXrvotf&UwuO^=`yR<a$?i%F|Zd]+j>~idOyBxe/_$d4Z+]WhZ;0G]3FuYQ*W:
T?*PRNuCgrr2=hZ#^XFz9=d>&eIQy)|L<6CV%3u$j.fg6r+qt:Qp/,wY9LXm(7_@<*]R'Pp_a?3P.~>Z.9umw1Fv'Q*Hk(w=RLUDY%D(0ImDGx
xt;PzYz/,'T%'K+WOtM/F]]/z[8XJ)@42F_4V(V#|8OP"

def lowerRuns : Array CaseRun := CaseRun.decode (Packed.read 1648 lowerTable)

def lowerChar (c : Char) : Char :=
  if c.toNat < 128 then c.toLower else CaseRun.convert lowerRuns c

/-- Whether the nearest character that is not skipped is a letter that has case. -/
def seesCased (cs : List Char) : Bool :=
  match cs.dropWhile skippedRanges.contains with
  | c :: _ => casedRanges.contains c
  | [] => false

/-- Lower-cases the rest of a text, given the characters before it in reverse. -/
def lowerRest : (before rest : List Char) → List Char
  | _, [] => []
  | before, c :: rest =>
    (if c = 'Σ' then [if seesCased before && !seesCased rest then 'ς' else 'σ']
      else if c = 'İ' then ['i', '\u0307']
      else [lowerChar c]) ++ lowerRest (c :: before) rest

def lower (s : String) : String := String.ofList (lowerRest [] s.toList)

end CodeAtlas.Text
