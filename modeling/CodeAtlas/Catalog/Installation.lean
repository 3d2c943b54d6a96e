import CodeAtlas.Catalog.Documents
import CodeAtlas.Json.Writer
import CodeAtlas.Tree.Basic

/-!
# Installations

The files of a fresh installation, below its own directory, with the profile of a project and small
sources on which builders and adapters are tried. Programs are there by name only: a command asks
whether they are there, and nobody reads them.
-/

namespace CodeAtlas.Catalog

/-- The places of samples, each before the text that stands there. -/
def sampleTable : String :=
  "KK7gB?J/)[!_XF6deVQ[)_epK7QfE9i8OW:#yVoJ4kw?n~PD]ay+Wlr558@&*R78b</s`MiW;9V!x~|lf!s(2OZc.Q+/<K*Kw&Wwr:,G@[a
t[~/p+JpA<TUn,ydXNsIovjT2trKkJR$fk*ye.'a=k2iZay]j8_0LM|>x!I~RltIM^|fX,tjOZ/`uqv7s.$jMq9MOY7~R)RPIKM1VnqjUxbt'Z
,94!XJpe`@V:GwcR6zhjk~Q6N|kcYDpgJ;jWq5r3rHaD.z3z[MQqz2uYn!znc,!~(~71W!;JeZo@ecrgAr^SA:M5sejC[69T0t&mJ4=ieWZTQr
l[i8p492j?eZv*@*7g.RIyU16/^Af+FvmeH#WKFc3m%(PG;pCgS3GUc~'J2A]IJbIwh@Vv4r>Ys]jjt[_<^#ewUmZ!ZBK|?D03dLh/T(#<G%Z]
(T`7hsIok1./cTT($!FHy<+IRV?o*ig:<Zzjl(C2I:9g09%^pGl:JkEar+`bN/3p_2e_;_Iu0]3+p?w=+'J@e9m7+G!XNtyn/+yB.ux.L:?Qco
/QuKpbSkvBT1+.x4L:6D^S(O>/0)^:w>CXa:p]eeL5k]t;,fd%+To6`Ci18BzJ=4yZapTSfg^jWERHK]/yi>;@T9a0LT>&C<e;$]DwrtmgxMio
|FR$qq2@]xkrBRX&lOfV>iS32bI=p:2s^Wzre3n>F|81yM8&pMP?n7a4x1U~.Ir.HS>L=Yi=)hzTOWP&YWx4flNkJ;Rz5HEgYV+(T9Y[TTJVQ6
;8[_kJ?|zN7q7x^_>U~L8vG?(Nb=h<AY9(?yDjGEo4`B1:@^Zx2_9eDJoVgQ?lGGkA#[|G3:wZK5:PaN=xcd'GVISY~waU/*)J5m(,)rG*eX+R
^oi6wtcxmyQ+$PwvG@ERpPa[Wue;h#R~b[@aPw_Ps`[bc]^)GTkAx!D2Qo|'.a*A!Q<F4YLCzKw]|`|wSsz2T(Sonpi1f'SaZ1vIsvKSMw6bDl
[xV'E%RFcp4x=9<jcIg`h1)yM]g~*&/i'A[_^38%]g5LoyIKNP7U~6a*/TcyS/087Z[mB&Z#I/9m$i<b?3k/+N;BI>E*t8l.hy@4>`*Nydz6U$
r?aSmZ+JfS;FQb.8Tg@M5hy@Ny~'OxY1t;gRpp[ru*;/4N%JpcLTv,oI905sR*ZDAA'cbVAgiZL0[Dg&_S&Ct31H;B:5Za]F/nQ'?zs]T'+j@1
RlW`Wbu_N/bz!y?ZADiqn`(%ETL1rv=xA|_5#j'iAU.rlLEr'lr[c`B+$<|vJ%+eV[j~@N28xLkIzgu<g!iEV,E.BM)ob2t05jP*Hw7<>>hHrq
I)rYW$FB,+(wH$H)oy[~U@<]u!3DDunzJw_#9T%chAbj6mpM=VyY%T+4y)$ue0T_r>i!9qXxef]_ArfvdlF%]nXbQu!6)i#fG/N%Q)&z?Q+YKg
E4Njo+A3RW?,3;]]**?h^*5aB4zqBGX6Viy`tP~+g1<X$M]=v>SM=ZMc|'n7v(S.T|i]#:$4N)S3VO*R1<TlhsBC%j!WJc!IDq?FCbin=B(b_C
];;,w*LF5m%U^Nh8]0UhU#'RRBp!RZ]lDJ)?8#IG+W|g;Rp_#wuxBz'ZS,OW7%*hFHMDHnRparr~lHtpTTCcL+~^o0M^`~'xy8M#QV8I/m'fbj
U$fJ<c)Jk$uzWbA~G<1#AvD<%cGH<+#+oA?)uw<z&a.Pcv*S=d`w+[J7B9&Wz=#~ot'EE_#bg^Fnp;6?UUn.>YGsLR/nPk1Y%4i!2]p`JzSR=A
db*=C8eyYsEAE0;As9rs7yVplxUpN_Jb,b!IDL^[9d_.Rx;Atr2_)$(MU~k_Q+z^pCvbaO%syH.c[(!Tu,g%!@1G>kU!j#QS1Bn7_v^`)[0U@O
w:1^ILRO[qw`J*6KsVoUK78+$lWFjo.2dP'lHvzTt.!YUdb5Q^v'`Ev*cAF/OR&TAbvV>^43gTA9*'lUJgi[AjnI?j$$'f6+WZm>GCCW(%h_iz
>.Gm>BE?d$0CTvZ>a3PS!f$J8o_.U*As;2sjwmjRy=g;sjw0*oT)j.I$!P5vC|ou'~+VF9[Isqv)~U^`P&2vJ2$`7dW|,G(#i_NK[HNjlq;^|D
SROXrxuCeb0tz8bHSxn$DY:Fy>Bm/M!];?(2zBrH.Vkjf&22^b<B)%S(RLD*hg#Wq0J9XQzEbtY'mYr]Q$$+]em8y<qh7VJ)Nt[o_KUh.I<wCq
]S*wFTx6UoRPS<22F/]hM;L|7qXuSOMusynE3|S.+:uBDvYWF3wIo(;mda0e_k|d)eu_1z4nk:lvP'HeW;L8jI@v+chSolJ5m7zNVuzj5W)>4|
aLOmsq3@bpE:cejhF>*0+WD;|6iRA)J?1V;:4M+PTC?bzJ:AASx>3_ET`Kdeng0E'mP6$GZzMI<eO)F%iz)RS4EV5tIo+FFP&DXrc&dOEVcU.l
|wyZ*1L/P$6#FNO~.+9#=@^=js?TI>pIXGhLNl`_<c@_*&*N@|,`0YlXQsdA&zLmetVipy08ZxK1dRn2@xRJ%laDURZ`q22xkHjfc~]G7s&ZF'
w#P;x<dD%CQ.viweh@xB._YU:Ni1v8eyoe*uwLd>FT*cVEjHChNQ9UPfp_*yGjoIx4p('9DduHo5>y;^_NFFnkQ_Xq+MEBT)5zb:]*8jG2JJ<B
8a''$ZZyPK:I@2*4!kxeNQa6lz|g1a5sBF(Io&9`NFQ`[aci*oNU%z=l)k2Q7)6]FBb*AGBbw4^ker>ULqL!<1,zG?]H9A+*EPRVWtBnZj./C1
q2v!_EWv,ckY~~LyD!2^o|2|&&+Zm%6Eigu_~>1+N=xT:^&5)&99Lenk:rreS_AUOCDoz7/^m*k3'R@1w#A`@dMA#g_l#mW]2$VrI$vg*mAl/]
|TqCYs'FF5;vhNSR?7C)O@]]ld.&+`yUml0cf%+(9UYNS#sY_&?RF^O!(Oy7jxrNI?GAsfz!E=ofx':f2ytFLB`;,1*wXAN%a,joi985'is^MV
xGhC*75*|=|5Gihy$r>ewfz!Jc;cr`>,g=K_Zz'da%Zv!6$/sndnPH?Z!2ldMWj4WcyKD(+pgtq8<O6,`c'|]Ia!9!Y79Ktn/P$;6ZQ6Q,ywJe
Fk+S'6!Vb,'SO_s~/U.F1x.aA|O~L%nU]In+MSn!(4/p/#aQf!nRHy_]&ckN^d.V~h,VsI`v8XMsm)lX'~C*DaF_IcG#6o5<u:V,G+g/5o>,Y`
E~>q$vk#1^P1AovgRhxv:1)g>Z9f4,P#s|'IxxEF%J~VYv4DnLBw@yMh9sGleJlTKk>;E~9<U!s2GUd0:Cv:]^BTjmL>>=KR:~KHD%f,wyy=LG
&g+O)L<lY,Zv1uUk)J+:asAPro,0nS_&B)6A7|JX|>&y#)PTkG!LN>L!w/iB+T>3Y(eU~`Wa5;eu<U14sEQ:$x]B$LyQ#%Wh>aj'I%U0ZQS1rd
'PX;5C*_CfiU8L~D'$;jT2E/+!CYed(J?R/?sEK,G5ek00Y^Gm20$s5vdP<loz8b`fc/dmhe+rE@+wK[/6jN(phhnnl5,+gIv3J]L6Rb>Qurb5
#]QE/2llIR/JBqxsJ@g>0FZ)Fw*IOVKJ!X#b53`bd*v|]a(8)6c,pvYLHx/HpTo+?.'|zOY~L76l?1A2C>+zxj+9c6iMhY9,E?NsBsYv'DUm%f
)Pnm[Sn_qziLN&(bf5(Q~4QuXk?7Yq0aL%U`Fd%bamFyXCCIc_:>Gpa.a4n7NCvvNgt36KjZEP6+m*=*xxiaEX@S^Wiv.Qix6@8n<!+z'8qFzf
lr@C^dknSycH,MH0MuZ0dQ3O;L/0ezLL?p4gmG(<'.S9(`|W_ley,U^1W[j$rhb<QkZfvoa=KlJtartHFo!'T.V6CEKg*;XFkyD^'|9KH`|rSg
A>VcX4P1l~_@K0RnUz3=k~&Ak/Zdg+Dk|)w;.O,U:;ij$P'^elY=yVM(a)HF(j3z%e:D;p7IlRi#k*aK8W'd>k*dgcVB#O6@2R@zZH6vC/(3G[
SnWT<GIwc+<%|,xRa7XG1@ho`H)gJ>60a+e3dY:4p1jgup'/kOfc$SPVLSh1^([VSNobyqAk_R~i&su<'ejw#lAk_x9_Z3et9>IS;xa*h'owA3
YUwVub~::]BY<tM`&wob#RMa,KR6Zq|5f2Txp2K~9QsyjmIKdcgPFmEl'EZ@s(+oa_On>go_1|HIJ`[cqdCPXJd[=U2*#Tg`j&#zlR&zvr:3mS
G1$G1|>G[+92]SPsp|_nt`H6QwxU':EqB]SW*0&LMqT=fro2VJ%fVRe,5/0r)>*FWt||w$O*Hy69U75o)~YL))%:D<NEyN7/*7Jay0@&M$~@f0
IMow#NM#67s.x1_WTas~~gN0EQ2k|MQ%KfxzdQeu`k|_.7RSnOULcz~0i'r:i,vSz]O^2MzbV~c^H:CX)_Pqt*igV~K,4UR|1(mX,!GtTL!pw|
6sH;jo<f)Zw6NPdFlj%5P>6Ko2O?n9O=mh%iSW)XL]BChe'c7M6/:>UkWNwb11j.o9cyeLJQ9t9`2%j<X44SJ#gP3icxhBZwN8@un!]a|!3a.H
VK"

def paired : List String → List (String × String)
  | place :: text :: rest => (place, text) :: paired rest
  | _ => []

def samples : List (String × String) := paired (Text.splitBy "|" (Text.Packed.read 14138 sampleTable))
def projectProfile : Json := .obj [ ("_meta", .obj [
    ("description", "Defines the active technology stack and scan scope for this project."),
    ("role", "Project Activation Context"),
    ("IMPORTANT", .str ("Use exact spellings from supported lists below. Spelling mistakes will " ++
      "cause errors.")), ("supported_languages", .arr ["python", "html", "css"]),
    ("supported_frameworks", .arr ["django", "fastapi", "htmx"])]), ("project_root", "."),
  ("_project_root_CHANGE_HERE", "<-- Set absolute path to your project folder"),
  ("project_type", "web_app"), ("languages", .arr ["python", "html", "css"]),
  ("_languages_CHANGE_HERE", "<-- Select from supported_languages above"),
  ("frameworks", .arr ["django", "htmx"]),
  ("_frameworks_CHANGE_HERE", "<-- Select from supported_frameworks above"),
  ("excluded", .obj [("frameworks", .arr ["fastapi"]), ("languages", .arr ["javascript"])]),
  ("notes", "Django + HTMX example project.")]
def documents : List (String × Json) :=
  [("builders/builder_rules.json", builderRules),
   ("builders/python/builder_python_instructions_for_builder_code_development.json", pythonInstructions),
   ("builders/python/python_language_mapping.json", pythonMapping),
   ("builders/html/builder_html_instructions_for_builder_code_development.json", htmlInstructions),
   ("builders/html/html_language_mapping.json", htmlMapping),
   ("builders/css/builder_css_instructions_for_builder_code_development.json", cssInstructions),
   ("builders/css/css_language_mapping.json", cssMapping), ("core/software_schema/nodes.json", coreNodes),
   ("core/software_schema/edges.json", coreEdges), ("adapters/django/framework_mapping.json", djangoMapping),
   ("adapters/fastapi/framework_mapping.json", fastapiMapping),
   ("adapters/htmx/framework_mapping.json", htmxMapping), ("project/profile.json", projectProfile)]

def programs : List String :=
  ["builders/python/build_python_ast.py", "builders/html/build_html_ast.py",
   "builders/css/build_css_ast.py", "builders/validation/validate_builder_output.py",
   "adapters/validation/validate_adapter_rules.py"]

def install (t : Tree) (tool : Path) : Tree :=
  let files := documents.map (fun (p, v) ↦ (p, v.pretty)) ++ samples ++ programs.map (fun p ↦ (p, ""))
  let filled :=
    files.foldl (fun (t : Tree) (p, text) ↦ t.plant (tool.below p).parts (.file text.toUTF8)) t
  filled.plant (tool.below "builders/tests/outputs").parts .directory

end CodeAtlas.Catalog
