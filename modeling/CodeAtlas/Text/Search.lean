import CodeAtlas.Text.Packed

/-!
# Characters and parts of texts

White space, letters and numbers, characters that start or continue an identifier, and decimal
digits of every script. Finding, cutting and replacing parts of a text. A text is shown between
single quotes, unless it holds such a quote and no double one; what cannot be printed is shown as an
escape. Half of a pair of code units may stand alone in a text: it is no character, so a text keeps
it as the private character whose number is greater by 0x100000.

In a pattern of names a star stands for any run of characters, a question mark for any one
character, and brackets for one character of a set, or of none of it after an exclamation mark. A
bracket that is never closed stands for itself.
-/

namespace CodeAtlas.Text

/-- White space of every script, with the four separators of control code. -/
def isBlank (c : Char) : Bool :=
  let n := c.toNat
  (9 ≤ n && n ≤ 13) || (28 ≤ n && n ≤ 32) || n == 0x85 || n == 0xA0 || n == 0x1680
    || (0x2000 ≤ n && n ≤ 0x200A) || n == 0x2028 || n == 0x2029 || n == 0x202F || n == 0x205F
    || n == 0x3000

/-- White space that may surround a number: the separators of control code may not. -/
def isMargin (c : Char) : Bool := isBlank c && !(28 ≤ c.toNat && c.toNat ≤ 31)

def classTable : String :=
  "sN1C&`fO|m^9DcdekQKR~|(T_GvsUeXtTS2_3]:S>R1HIEz,Y^fV=bVgsf.Mc9n,@EZAEZUAg6@RDg*%SAs;~n&[f~gHnelH,/%$T0|H#xJ
,^7d/z*S^eoqB#0amr$&G#Z_%FZk!~rE/$A=@|[vvs!m.cPXG)KblIe#P&NZ]yi.Lq$mmnfDR!ZBlGxD&:tk6c9D[j+93N_IMwMv.!IzS^S2#G
uf;`%62@yzTySuG/Am5n>j$#z)oB$Ws,='DX*2w=S28TV1.fHQgWG)bx;eq'Dw;^_)P1+9w4aGA|)JHRR?h@&7[_@o!Ty?j/H=0@s;Z]E^wP@c
bm!;i0dEx<'A>)UpSMDLl<mVpV`9ah'd[(0#*12HD/4SQOwu.80syQH.Z3`mpjAv2;;9<~dd@=oS$AZxv22T<o`W|lUI~kkW$Z=AQ9_rDO39^g
8rP|pUw*P5hjiE?oA/>1Co5`;stX|S_=Sm2RS*tgtpjuStubs[7pzWbek^lI+R8=WJ05HlH5lFF:VCrinq1|p|[YM0hEQu+?tQJt4[_`<79RuZ
`wtiJGJ2ceg]GBV#<4?QsQzQA~4=_LyUb1s/c0o'%6L(@s@]v6I%t&#md=*0Xnm%kwQsPoPAv_]c%n~D.!K:u=97G7l=3CG3rR4q'3|+h=?G[C
w7:):iguUR>Ll=|7L[E$xkl^xBETMt1CbG(V6DuBuqjn!f9$?[+^Ao]B#?eY70_^D<:`UdXNms.;Szk;[*9mo16ID!8&[Sbjey5(reW05<0XmZ
~$%Bm<ABN+$(3kgX`4ZuW?USZc4W(P`I~QZy^$e;C[JutS3<@6xz((L''4un7_t8!t/Cg_5fC8/ZalmNd77iaT[Q[6Tz>aG.ie^Pv2ZN?uf)'e
0/FQCrst31DrOUB9nUAyM)?p6C,~;KRz_&[KKT<V.vcxXbn>SJ>Y$jOeKtxd'G1OP_d?7CHo(&d6')r'u=nF[(<P$^,To4U'JZ9VWyLqA&8r]$
PZr2d_DL]^fY~!Shn=HwFtaI:l(2[Yfo)Xl(#$pKAJtS=X/n).ziWLj,Ddu'TCdt'TJH!x$$kb.`v=Qj>)_x3jm67tqSV:EO$;!LL*S%2`0JU(
yon5Hgl`_oNAP<z_FTyv@m$K_zWs#Vs<*??kT0fBmemEvBwNKe7G]0cyKbBewG[XL^:n')cQMTCE?tn^T:P)lv4m>'hj):rC1,[9E]*tY,6c^`
Bup`RI2)n/d@.'>xPQ):|pS^X$L6giK*u85dtmB@wJZD9X.Qw83CpfLJnW_J^7uo%~D#z'++ao@h?!Hy~!*N`tQcW^EbCBIs]l9DJc53z4GNkh
'l]#mN@rChoYFEm~2bx8cfVwQyE#IzYBp`6Vu~Ue^y`@AFa6MY&yk!G8S84otlwx:~~:'Sp=1brMW2bgjdyMB%^5ToFMWOm5qUk*VfBVA*2Otd
=YY#57nYA4Z~)AL8u]p!vw%mmH<lDGG',#1z(/$+U`)Q%tJbrC3|iN5Nt$VXqD=30yA!'~?3<uEE=`2%6r|(*5'DbA>y.R'oek9S=C%rs#::wi
km[$>23s6%e>I](VqFMea8J_I<W0W.?xpD`|]OHnEl!;8A_@~Hl1Pc41p6Hf^GKuks8>/I1)G=<H+S*L^'<IF(,_XVoSVrgz(o+|H/UUEbFtJ2
%dPJVtNa]Z9L9q4rm0uOvqFZYLDtR:[~7kW[[&zcE>|MD/tYmr>3D+?nlf,s@OHG*<FB&GST=d^%TvQDmRYVe>j3GedE,nlM_KO^#4SP?hoa|f
_gX^X]2m7,Tr#fq:_rIjv/S9j`wX9|P312!gxoi'*DF.cjrN5w*;rV5$K[|[23@wX<J+~xy`I')0::AnK>),vcrB/Fdz=|cPByc__]Q>R!MCEl
0h/(H8wT~quSb=g9NBy*5>WwtN=)JnlrK/S)j,tyL|4wrXb0+P%W32!hR$?.?_qoUaCRs<wal1n))&86bs51EV#wO5UI&:aYi;_>U:='uE&/;Q
gk|,S:Wvpczq!)sD/XOeq+huX@3C<_Kw4q91|DE=DhtvNA7t+=*/O&!`F_JGvQP1v#ovp&K3bds+*bzwRgn%)]Y(>P](AySySyrJ~0_/>%[V?h
:3GIOQ9J_r=UVLZ&A#FUbiuD,uO=HPi=g=V#Pq.w)hnHsDb^cG?|4`[AQ`RC/P4Sop$|`)#8qTBF.!l~<$fB)[G*<l8H[P9RqqVWO]5F|#p8R*
F7LYg54*Vp4xg[(O*is,>axN7:UHzBqqA?[A[/MvbKA#*ul^W+);UtSTS0JK/H$gddRt'J(?6gFME.,pcS<7/RKaw40<V(Hyrj(u`ln][_1hh!
J5~4|YusAER44%cPUP^J2Q,PYB6u!e&*ud,8M&INe70=utm@YWPcofmn.'8e86l>^uWrZ+XhM<,2rv]9t:V,'/2f2=[%wN$_#Bf;,S=P+&Z<im
8NIE$i6r/Sdxg*Y356KhM1e^q)@EU30ky[cd)ploSxwP'GY2[~n+B1jXN!A;SvGk6egb[G^Pia'%=FO+;x;(HJ_Y<!0ReBz.fw%Q9#_17*5h?/
hx0[G=@y8YEtmzm[/1U75;t6w3A@w=QFmSzd@YR9rA)a$fELP:|#soZs1rfLy0*j~YoTY?xPHNH3fb3.VuXad;rC6CWIRNT^AKogOC%]J5h`@q
sRA+sL`h!K)mXsOu2%Nkw/jX22a/Tq`#6oWh$gWIa?6asj;j$tgC>J~4m[GN'N.KBkpX3a54/SQ2`G@Qd]>cw@+o5p'y6kW'R59K+/v/<+ZY.7
O[g5*WH6`:K3LyNZ_9S.r36`hp^v~VdiV^l4iieK2lakk?31DM73y5S?]G,8#nX8+qR?yxPtb1uG:7a.Q&JbCXz>7hi6fzuW@rNL*9/Rkz^Qaa
o]yvZ/Dy>ymdz+FjOV!pJ8kQ7|n~ypj26E`j`7]JHVv#*g$NNUg:ntgQeRt:jUn2kk5:#b4njpu9w?2uwk+H]7v#J*4myTOs&ChIsQ/<Y=W<e&
oH~[!OT7SE&1)b&b;CPHITV=Z`t0'c3i19ZP&lSd,aW0T;W;?eSDH5n?P/)_f1QE9/tNBj|]>:6_.K8Cz2_8~xF/wO#3c[b0diUYdw`Ly+;^Dv
5_Cq4djZ~SlXPYDs)!99tZbCp'_n5N[]:Ll6xtVp<DoN2@3j6#SKlEG<JRQX*k#NmkFBP31|'SOfP=>^:8CPTI<IFocl$z;x)uMm2>yTC?7aG6
Ah9_r`,?8v'Vz*G<(L=K=,':;hon`'N>nSQ$#E&0|+1W]IuI!HX3rV#G$|7k|0*#h]eXth2%K=FglU.NjRiUn$_.K2l(6F_lNyRT]a5Ve`zK/Y
>h1An`WCxzpN#NFe~&fKq?dxES;3NY?cTZGZx'g[fCoa2q~Ic~8VqWi)>WH)Oyvxuncql(*d8L^>hR,@|Fr>M34qn5@LyH1jFV'Xfj4NSAtJiq
9$~$H_BSK2VLCmOm@uHg.%xhINb[7b&_3aF%ft>eM6vnInBB_:2^X]=px)c*a3l40fvVSgrm(d(yWjZm=fd'~S||(ZwL.PEXX3GUgjz/J&<?)z
h1GP`v0g/2taw5694E9!?f,^dwRDOyX9&>u^NHi;Dl]M@3#c_7q%MG58`PvN1v)6,Wj|A3(=``c9Yqz]B@DLwb:$1qHL'ZNnLiY#S*kUEV.E&a
1[%8:1|JT9EJP!XF2'~v2~l_;r@70!)2=BQYD$7`s$|Ql&<khluOUl33Swk0)2#M%qT~0K'eX3YiY+ROpKxY19UN8$~Y|og)a=dYq7XG^vW3Z=
+IS_YWXlYu?ep.;?kCK/q9Y0qhG)lZwSRmt*nuY9c._WE~wGL+27:,1ugO8@<#+FwAan;Ii6Xg5S&&d%mJ!!(Eb2jp/Ah%ph0]e!jml?[NFNPI
B#Uz=b0,8C&m6BYQr(R2b.zx]~9MHi=[u3_'?_#(kw=UU>fd=*W|k^$?jFj7d$@Bi3(ro#1Eq.8:>i%EY9g5F5E@6IGC~hMOq|Q,lS9|j<zw;_
Hc+p]IE[B<PI),Syq?iGNx/1Hw(UO1EY:SIE;PkiKptnC(76oSE|J]*JBrcNE1em)6IM<$0Yq1q~NCrX;b&@w<p:akuGc~O3pAgyw2.%3IUgW;
Gw4Kg>;ntMQ"

/-- The ranges of characters that start or continue an identifier, of letters and numbers, and of
printable characters. -/
def classRanges : List Ranges :=
  ((Packed.read 12442 classTable).splitOn ";").map Ranges.decode

def startRanges : Ranges := classRanges.getD 0 ⟨#[]⟩

def isIdentifierStart (c : Char) : Bool :=
  if c.toNat < 128 then c.isAlpha || c == '_' else startRanges.contains c

def continueRanges : Ranges := classRanges.getD 1 ⟨#[]⟩

def isIdentifierPart (c : Char) : Bool :=
  if c.toNat < 128 then c.isAlphanum || c == '_' else continueRanges.contains c

def wordRanges : Ranges := classRanges.getD 2 ⟨#[]⟩

def isWord (c : Char) : Bool :=
  if c.toNat < 128 then c.isAlphanum || c == '_' else wordRanges.contains c

/-- The code points of the digit zero in each script. -/
def zeros : List Nat :=
  [0x30, 0x660, 0x6f0, 0x7c0, 0x966, 0x9e6, 0xa66, 0xae6, 0xb66, 0xbe6,
   0xc66, 0xce6, 0xd66, 0xde6, 0xe50, 0xed0, 0xf20, 0x1040, 0x1090, 0x17e0,
   0x1810, 0x1946, 0x19d0, 0x1a80, 0x1a90, 0x1b50, 0x1bb0, 0x1c40, 0x1c50, 0xa620,
   0xa8d0, 0xa900, 0xa9d0, 0xa9f0, 0xaa50, 0xabf0, 0xff10, 0x104a0, 0x10d30, 0x11066,
   0x110f0, 0x11136, 0x111d0, 0x112f0, 0x11450, 0x114d0, 0x11650, 0x116c0, 0x11730, 0x118e0,
   0x11950, 0x11c50, 0x11d50, 0x11da0, 0x16a60, 0x16ac0, 0x16b50, 0x1d7ce, 0x1d7d8, 0x1d7e2,
   0x1d7ec, 0x1d7f6, 0x1e140, 0x1e2f0, 0x1e950, 0x1fbf0]

def digitValue? (c : Char) : Option Nat :=
  zeros.findSome? fun first ↦
    if first ≤ c.toNat && c.toNat < first + 10 then some (c.toNat - first) else none

/-- Whether a quoted text shows a character as it is: letters, marks, numbers, punctuation, symbols
and the plain blank. -/
def isPrintable (c : Char) : Bool :=
  if c.toNat < 128 then 32 ≤ c.toNat && c.toNat < 127 else (classRanges.getD 3 ⟨#[]⟩).contains c
def isInfixOf (part whole : List Char) : Bool :=
  match whole with
  | [] => part.isEmpty
  | _ :: rest => part.isPrefixOf whole || isInfixOf part rest

def occursIn (part whole : String) : Bool := isInfixOf part.toList whole.toList

def afterList? : (start whole : List Char) → Option (List Char)
  | [], whole => some whole
  | _ :: _, [] => none
  | a :: start, b :: whole => if a = b then afterList? start whole else none

def after? (start whole : String) : Option String :=
  (afterList? start.toList whole.toList).map String.ofList

def startsWith (whole start : String) : Bool := start.toList.isPrefixOf whole.toList

def endsWith (whole tail : String) : Bool := tail.toList.reverse.isPrefixOf whole.toList.reverse

/-- The pieces between the occurrences of a separator, found from left to right. -/
def splitListBy (separator : List Char) : (steps : Nat) → (piece : List Char) → List Char → List (List Char)
  | 0, piece, rest => [piece.reverse ++ rest]
  | _, piece, [] => [piece.reverse]
  | steps + 1, piece, c :: rest =>
    match afterList? separator (c :: rest) with
    | some rest => piece.reverse :: splitListBy separator steps [] rest
    | none => splitListBy separator steps (c :: piece) rest

/-- The pieces between the occurrences of a separator that is not empty. -/
def splitBy (separator text : String) : List String :=
  (splitListBy separator.toList text.length [] text.toList).map String.ofList

def replace (old new text : String) : String := String.intercalate new (splitBy old text)

def headBy (separator text : String) : String := ((splitBy separator text).head?).getD ""

def trimBy (p : Char → Bool) (s : String) : String :=
  String.ofList ((s.toList.dropWhile p).reverse.dropWhile p).reverse

def trim (s : String) : String := trimBy isBlank s

def splitLines (s : String) : List String := splitBy "\n" s

def countLines (cs : List Char) : Nat := cs.count '\n'
def isHalf (unit : Nat) : Bool := 0xD800 ≤ unit && unit ≤ 0xDFFF

def unitChar (unit : Nat) : Char :=
  if isHalf unit then Char.ofNat (0x100000 + unit) else Char.ofNat unit

def half? (c : Char) : Option Nat :=
  if isHalf (c.toNat - 0x100000) && 0x100000 ≤ c.toNat then some (c.toNat - 0x100000) else none
def hexDigits (width n : Nat) : String :=
  let digits := Nat.toDigits 16 n
  String.ofList (List.replicate (width - digits.length) '0' ++ digits)

def shownChar (mark c : Char) : String :=
  if c = mark then "\\" ++ String.singleton c
  else if c = '\\' then "\\\\"
  else if c = '\n' then "\\n"
  else if c = '\r' then "\\r"
  else if c = '\t' then "\\t"
  else if isPrintable c then String.singleton c
  else if c.toNat < 0x100 then "\\x" ++ hexDigits 2 c.toNat
  else if c.toNat < 0x10000 then "\\u" ++ hexDigits 4 c.toNat
  else
    match half? c with
    | some unit => "\\u" ++ hexDigits 4 unit
    | none => "\\U" ++ hexDigits 8 c.toNat

def markFor (cs : List Char) : Char :=
  if cs.contains '\'' && !cs.contains '"' then '"' else '\''

def shownText (s : String) : String :=
  let cs := s.toList
  let mark := markFor cs
  (cs.foldl (fun acc c ↦ acc ++ shownChar mark c) (String.singleton mark)).push mark

end CodeAtlas.Text

namespace CodeAtlas.Text.Glob

inductive Piece
  | exact (c : Char)
  | any
  | run
  /-- One character within, or outside, of the ranges. -/
  | oneOf (negated : Bool) (ranges : List (Char × Char))
deriving DecidableEq, Repr

def ranges : List Char → List (Char × Char)
  | a :: '-' :: b :: rest => (a, b) :: ranges rest
  | a :: rest => (a, a) :: ranges rest
  | [] => []

/-- The text of a set and what follows it; a closing bracket in first place belongs to the set. -/
def setText? (cs : List Char) : Option (Bool × List Char × List Char) :=
  let (negated, cs) :=
    match cs with
    | '!' :: rest => (true, rest)
    | _ => (false, cs)
  let (first, cs) :=
    match cs with
    | ']' :: rest => ([']'], rest)
    | _ => ([], cs)
  match cs.dropWhile (· != ']') with
  | [] => none
  | _ :: rest => some (negated, first ++ cs.takeWhile (· != ']'), rest)

def piecesFrom : (steps : Nat) → List Char → List Piece
  | 0, _ => []
  | _, [] => []
  | steps + 1, '*' :: rest => .run :: piecesFrom steps rest
  | steps + 1, '?' :: rest => .any :: piecesFrom steps rest
  | steps + 1, '[' :: rest =>
    match setText? rest with
    | some (negated, text, rest) => .oneOf negated (ranges text) :: piecesFrom steps rest
    | none => .exact '[' :: piecesFrom steps rest
  | steps + 1, c :: rest => .exact c :: piecesFrom steps rest

def pieces (pattern : String) : List Piece := piecesFrom pattern.length pattern.toList

def Piece.accepts (c : Char) : Piece → Bool
  | .exact d => c = d
  | .any => true
  | .run => true
  | .oneOf negated ranges => negated != ranges.any fun (a, b) ↦ a ≤ c && c ≤ b

/-- Whether any of the places up to each one is marked. -/
def spread (seen : Bool) : List Bool → List Bool
  | [] => []
  | mark :: marks => (seen || mark) :: spread (seen || mark) marks

/-- Moves marks over one place of a pattern. A place of the text is marked if the pattern so far
fits all that precedes it. -/
def advance (cs : List Char) (marks : List Bool) : Piece → List Bool
  | .run => spread false marks
  | piece => false :: List.zipWith (fun mark c ↦ mark && piece.accepts c) marks cs

/-- Whether a pattern fits the whole of a text: the end of the text is marked at last. -/
def fits (ps : List Piece) (cs : List Char) : Bool :=
  (ps.foldl (advance cs) (true :: cs.map fun _ ↦ false)).getLastD false

def matchesName (pattern name : String) : Bool := fits (pieces pattern) name.toList

end CodeAtlas.Text.Glob
