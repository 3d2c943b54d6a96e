import CodeAtlas.Fault
import CodeAtlas.Table
import CodeAtlas.Text.Case

/-!
# Tags of a markup text

A markup text is read for its start tags; texts, comments, declarations and end tags are passed
over. What a script or style element holds is no markup. An unfinished construct at the end of the
text is dropped with all that follows it. A reference stands for a character, by its number or by
its name. A number that means no character stands for the replacement character or for nothing; a
name that nobody knows stands for itself. Most names end in a semicolon; those of long standing are
also known without it.
-/

namespace CodeAtlas.Markup

/-- Names, each with the code points that it stands for in hexadecimal, packed. -/
def entityTable : String :=
  "hcg^o$v4unT%*5O:~PFu|uIv<'(AFH[esZkq&D<^dWN?NVcYJ6gUV;PU1z?Y>e0o[/>]AoMF*@tTP_Nr%rTXy9?PI!P<>PL0XqRMPRLa>4B
e/^ZvBt2mwMh+rLm$ZCGemlk5f4xtcPJ)/w8n*Ze*p&|;b,y)*,*6xWd96h:%)xG%i5>YdM5(+r^6#`T9u6hX&_j>YO?nu=h:0vs'/=PqwkpY+
0G=x^oZ;7pGO!#<pJ>$`Uw8WgIecXp6n~Elzz)6@uo6IT_>%h$y<kmX9Oe.<uKIT7&=N]$w#nW3kiANFVu@R*^D93lWF<'gJFD|HwPq<&4/1n1
Zb8BXNs7iUqeUa+7a6w^A6~h:(L;)qMQJfCb*N_bG&x:Fx5&KjVfUA>!$a':f0As_+s9M!MX'x=U9Re|,@?#S3J#CxJEjW6TP8R@nkP[WQ(XN<
^a17>V>0EJeCFxeU.%7c*n~rzy:D/QLp(9)ItU0yr:yC7e1!iqeUP3j;@HPK>?2fo=%l_^REdt2b9B3+R))'6zl??b_2bJ;haFO0k2WtU:Mb!2
@qLC%IKbAqYzs[,HTEL(pVWR<rFe'#G[1z#PiKT>dG@B5TIqtI~filMv22im1rbwPRBmo=BogCCgMjqa)5BA`IF[Tx>]qxq:451?dnO,f4;|zE
Xm6z)'y<I[$&6QbO.nes/S]w:TW5cZ$W9W()ZwUar'6<4J*k9%k7OEnH21j]IIN9/trEHd2Y'!FPZ~XByy52p0V]ycUWKtkd!%FC(ZAHH3m+)*
IbL=yI;ld/kRK=[?+Iws8if.rs9JnX^.4?:TTL,6U=S'nc3_#x|,(0~%KSYKvT>ajVStX8Rm,O]pF1L`&&!',Sc?&R.9)Agh]d_>+Gur_WS5]G
tbuOw+7.*^H/v0XwT?[oqsU6RSP|s0f,qoE4a<3`DZ~f&)h/o2m~~m?`8+]e)$8h?h|@[_#OEryb:>QvMqwoY,*g5=Kvr;ffXn_?[HnPugO=7=
GnVO8]kNRcV:kq,gI3|7oNPQBsdmf!(Pxb,:.SmX!A<?!G9#=[[Aa#*xO_1.lwO*Dr%hK^ah3<Ofs5A`oTc]'ME)k0oaBxB&kN'T/xYYqo&JhA
am?Sfj9nNz>a@5%=a!Gho1V5c'F1F+ij&N+`Ex$!WD?r,?u;Oo|.,6%yj~)A'tet^YXTmt%|?3PYKY<TJ(EufuRh3J74La4rK[[CgL>I4&S;mb
i6o?wrir>N3]Tv7jtDlC;`%%qdgA!49bP]x5u@.=g`[CArU3Vb0i+>s)2Gv|J(q)~GYyD5[>w$E)_Ek'.fRDtxC31!,*~'TQROt30xAJ0z[hX:
Ol+mlNp=UjI9B0:Vs>(/bE5)8&>.m%&bv1jFuZc+A(rA0uR'/TD4%5_'4|y@;P]5Fjc~+s?3XrNAh49_/L$87IL`eV,UUI^.j[61Up#mxt+P0H
cYWIw4^.Tv/NNDuAA!Jx27pSHn$2Uh02!A!5mA.n5|,O[8vdwH,;W'cYk<RY'mj/[;f#MPh~>~UFM5ZEXJO[$R5h8shhdT6+_%>7Cm2vhS'jW.
)U]g((Ta7.9(Hi0+$7&+'|p,;bz1)q?Z]nuQVaFls4%:QNt=hjl^)+N]`JLP6umFfuc:[H1!>zinWi3nYw[@MuxY~~/k<u.>0Z*d0V1y]v~E_V
Fo~6<bcBDg:*?fuRYXoLaFJ6@e@seby#aKBIGosL[^|Twz!faC%/e|2SfglDQKc?[YTer.:oAvY;ZKeFR%5=HzFSUS3,e03t|ih@zj8#$Ln#Q^
syYw0CcYYMg8^KH&G8cu&T==#&Fax,5jZGNp8/Q$p,IAy?3C;ti,KVLvmC0'_qL15MLF!BGpvGP+~S`v6GfR~,'?L;ikYDau0c;b0&V%@[XpRb
4F_kClFztx:>LJoa2flcRfD~#&iR.Q%=T$n<f^nfzkxcPuB~A.3xt'=No+|zclmm<w2qO&ASMcpt>kJ^4W!,/>*yuR?b[c`G2ob$[g[G;HwN??
Z0|aDVjc]yL?yh8J$*rCh$D[t=lf@pdpyEN8L+p5;2s7/d~oMpVpV_>=&=1q9?dc@qAJMG6Q=7fRj(>y;[m>Q`5uM<l,F4rU$VlGS6w@e>dg4R
/bq?<c[OxFr4XO/$w9C0V0v^q@3'=_AtV+C=2S2H;*nz9uzjv#XMb6Kj#CR*w$2EqgbZeiu:2]!9PWFo+e.7n3bngzlTM:0@:(d`2+b[`Ymw>J
c77Qi|z3ge^rj?1dkjt88M]*ccEwlt_k!@9[%3afW1W+9!.]sb3(>C~;8m&.RRJ61na`3Pa5cF|PxN?rmo>uIZ/Zf7:X_18issk8!3%.uNFMNC
cYhP=p=n])JR6es0z+94%4+8b?)[K*TbJI2GFX?[KWFe*IFZ+r|a8,T_zKHj&l7/4GFKrGk7n:]sYCFt,HYM[:p~cv;kv/#9M+:D]VuJG`Y5|c
y#^Wa0rF<e/G$`%URF?JH[%rRr+.[Dkb;Sgo3o7j)9oFFZP~cN<v`UMwajmD^`Y1U!<KyJ~^+%ziIaaa1diegR7Dg@q~fe&9G&0dQE$V2GFY'k
8a(NhR!IO,<Cesxrn2er;`h[c6:rL8`;uKWIv1Z=Bh@eE@^9L]9l$bvExINbL_aZ+Y*hP'W4l;#S;x(`*lU|lYbmAx_Tc*W6WbC/[V9Ghnx%o>
EpK`b2M!I!@G=L5bG]Qc(c/s~bUUO:*IS,umx@u1we/pwD[k~Tht[ONn**gDy^u>3D#:gt5IcJ^7Uvem:2Z]Z1c#E&Gj_XdRP2RzffS,*)HJ]f
@tdC7R(nJV!WhrzC$[>;Cf$/e@6@W5v0dQ5uNzxl*^_h:Qo>v[~y]Vk?'h1u7/4XHwz,W]Y1lP8wV`mL%ye7bg~pI>_wV3v?R[<9yRG:nPXoD3
r)%JT7kKZ&**mitiAxKMe?nipNEYCqIA::T]x;<Yn&VJssP:~/Anvar=@JyX@o]dJXQqT%V=vNAbO$p*vYGveHSsJ1#7M+hjEZbUWFfT</y3j;
WIwF<t<*^?vPeRz>,Cf8?j)Q]f]Y4xAs_Ikmg)qvQrQo0XT_.jdDqx0ty_#5?5*wyZS[Qb|IplF1+hU#tg1*l,e7a:.Q<9gx**F%bP0%1TbN;n
?Bjyu24ADi@sc$31Zvt3uw/o=y$Ds~++3u2b(YV&B)1e*BF@=wAKk7%Xw.%[I+*B+e1T43F'b&KS1cB^N[|$!mAl`jA=HRt(v?2<1`9^tq(wdc
v_.E&?|.pzMb5yJc'st9x.d]w1(S`g@fnH[:hYXH+NIzk]?yIr>[TVFzuOznYwY?+.Ml'A']k<@R)V,f<!fV_#U$$9<|n&D.:>TE%/Z#CxnE>R
YxNEARanejW8P0*sk7ZVWu9Hndc>[oH>ROVp]E>7Fqf,:7(@i1McoAz5=j#n0uP85Xz]Wg9Yn(ZhQRZzX7thM#NN&^Zpa?5U),Ql`l&HIw%+X^
kq+eAl@NoTs*kvd/1!Q$(HJfAu]wine0$)kL%~lR1`?.yH@]B:@4[zM<ScG%@aLioM*Ihm`GU`)(SN(5*GBJ.*kh<Jq>yN!92vCenQuW'E/=Hq
0p+>*N1VKR$m!utw7;S$aW&J6.Pq38_D14m,Lc5ROjT!hw+B)KC1l5Q4ZHJVfnQ#>q~J^,x(lqNs#RXYX>Lt8c:.m|EaO|(N!AU7ML@>O0x3H+
G)XnuIC'06:@yT3.(k/gQ|?o!^e);sf::?.pa~)k~;mYKV[$Y.GenEBDVwCZa(5S=(OmmpGM(V7ZWB(mlnKDA=UQMrYFH]u64/g[jO6Buj)5G?
fiicuUN]](=Du9D7Pj7IL9$moU8Be%#t4`mRm4g*>t)@k?dw,vmd^g1C;K`/6ispv2gs68e$rr*9RK6R**ck$+W3o:X&h%Fs?@p/Y&vtv1~||a
OELWttgIa=0Iaq<(/uw1QVtFm)`ZJ=&H'9+]GlM)fa8PfW]Dbl/d3,L[.<40)^I^%S@z7vFZs4zw4u/FH'*#dK(+.%ynR#_M`.BE0ax@3`Zo)E
hth&GBu0!5a=[#T?7n$$o3o.6IEvMWUHEuQ.eJJsJO3~Ql94`OA8`#4W3(+!Ms+~dWa7itqmay]_.w7Fwr@5df`9c+@7%z8@c9DtI99?Ac!oRh
xLy/hf.tP/O22><SA)ZveZM=@1`~QA;oe0_Tjb8)CSmLT]ctc/B6>C`]T~@+j/]l?6AQnwigTfU$GaL1^+Yz@N6lsAiEh5t=RY;K^@/QS57Rpn
nKmg5k+mSz'uW'~(p~tydd*z_Ek$AuQp.:sw(L]<_^C*6bSL2;A:;gZK,IprTdpLhM.gKLnqdW+ZOh0_yED[7A(s0cK^9kF`qriOeC(ca4w*'m
3BZ,,x]S?P%5Z><UOlF8YXp1zbxO&bnMx&?caNR.>4*P1wEf_~[8BMCZ?<ttwX_>b#.vxr$~kV9X4D9v=zA7pttDlfY%~K3e;)04jD@W~)c^wC
);;|._I*Ut?w4Ku#A6R=Mt=HzVqgQn3e9R~O40W`jY*tOQImYaH=(MjmeIAA?A9!rZflr!oeTdXF6|['ixxQ(#&b+P8lE$9Be~RM<A5~OKo+_P
b>Ae'HD9a^;=^#T6y9]J3`8/).=>T+^l:N5*Q[gHL+|k<?@s6i~mI<I:)>bEMsyqk.yJ!N9g8FOEjU/]fHe9hUF.p5Q,D7^5kduFrx|BnVxQw,
Z[a&vBTIZmEYks_~Xw7Gw^dfDuUrj=WKUw/O3g/`d`@cQ6JW+>AZdf%@n_|e!TWBpUz&Ak:D4&;CGty1<Iy6^m=TIbSYYY3FY_#4MV9B^Q`sjp
.XBI+D2uZhw<l#^Yc|7;F`eA%i2l!RcPW=F,KbOP!r.nlYxQR.nq70weR4t6BCK4;O#^i23?;KkgCYx6%JJQG<T>IM#3S'WQ0C;wG4emj;8Uo1
nCZLY::F8W00UX&Y7E_AZB1Y`L'bf]70n1~+hvdL;|DM`@_mA;.^Nu=wlbe2mH)l5Mjk^ihsdcl4&[]Am2bA)f10L7+pHb<0J7Qq(gs^z;W1tY
B_[KMxvT=dK1xUqkCa;)bTcLCk(9ZZ22NYGy;#F.D^)Hz^C%);5EZg*?P!faz21=1CSy?HohzUmf2=x!v^qjW%T/6K@7JSe`GkqlE(`zzZi@)C
TCW%w/Wg7(o*n.?e%YhiPz!pAmK]s^bBt4*k9~)Z?w!9qj(Dg..y`J1UUMxjrUPkzKm/pZuU5UFj(DG)d3yllih)x.08aCEL]bEUv~JkV%H_2%
H)2R+bp=KjwSmha,UY`SU`^x[z22;W#)mhPQuF[f36_@JMU^]!Ww0[BeJkCY6eC`Fzr9$V.S&E;E>~6!O+9'@GgRABEn8`&v%_ZS7L9d5.4vhl
%5rjZpH<>D*'W~k2xQ'e#e#)8Y..%CA+`8>?dIL.R+Sh+x325La(L[AOc/m&utLoQXFtPY;pq8:kS_N,g|<NZcC/EP?J_7PI%V7eA)gwwwvX<C
Dv*0*GK46+__+>2fcKI/[Q#kjnM174)_w`kV:Sc?,&[`d1ASP</'gTkvB|Cg?A5rUeg<Rds/)8*'E4'3LK=%7x`H[Z1`jRH=:Upy5nB^%WK?[X
GSqaS9zS33l/B*gOwO6<OmZ<ObxP#9,J8AeJ.eOa+A(F6DGo9diwXF4'YUk!@V/;OW8A6p(6q6~;D=(>rouq|fR^p0IAI?jd(zz0pBOU3bCPqQ
|u@2CZcWUW1>jjjehf+E6f6MzzUi:[2!f%gIQvV2qhJh@diNWMP]o*SFVhBq0Jp>%?9s*5Zn.?+Syl7<5VG*_QHLSBlfL<A;QD?Beq&dmD<8NJ
xO;!wqZ$~zMyNr1)E&YUQ0co6DU`Aq0Jv7]8Ngy,Bn#:HxCisb=LIl/<JyY+Zy&W'v3$'**Y[(~5`l>M%.Bldc0^HXUeW0vuy[`8NynXb<+&oD
B3eq.W5FNrtN7I!@Tl]I;NQ;U?|Y)N?!FH8r[[hjNeQgnoH'!WwQ9??I5|!Dxf[n>bK(!~/>32_0@oYy8gDhu1aEBz^Drry:,pK>&dkr)E@`cR
R/gam`NWv5b(GwIh=*(lD.tlwS@i!pJ.p.^IA|e;x#2N'<7.$PlBv[b~o5ogz(gV7;V^.[xg@d+.l8OKElRO@+lUA8a*#qx5f=15/(Oice5L&3
ZYq[ERahkz>0@4N>s[l$D:3O&tD2g$ow;XQ,rbkEt]SUd4k$6?O5/#DDyTWED+B3DDqYFjc>`a:IVHXIWPL9q_/BX~d/?l+p$tcvEW+_!#OwMO
l$q3L`LL1mRt&1hbw6#lk4bzs~jFvxnu/Ct7N2@O$Z.S<!qHPU0wh/A$[rkntHP1ZCO!mzA=mOq#N<_82aU]U4gt=aqtV~0Sy|A^Mu0;1Lt+sV
5gXP,hAPrVXLgnU%?<_%ft/ByJzhi|$~f%%v`GT5<FBy$~gjZw4DtsgF%>]0=KkAc|Xo6egT#HDlW5n1alxeJqhYYpgoY[1IXIpi00a13U066C
h)OnyN$1Nj!QM[+6,d6<~&0S?:wAjW=EX%;d:0~4ZNP9/2V*lO(O<<tAZ73^H(cklGR!<6]5K`kB^hEnchi@Fx+~jM^T2.ah744s!d'z]m_k.C
nuRx8jC(rq@VwnIKGp9n>^MjXz9[orw6#7u|~*kLo()%U6lNLYrr.(tv$!RqNqQ>S(^6rqQ/wzM(h2~*tKH(FRC^^HK9=a+4pa0&6VAb?uraC^
]tg23UtREO`LVU2V_y*gBu)Q:$THKMZDucA3zaNZl[an1gX2nv;<[;WWgRDdd2uO$[bjs(/UiSi0Ly'QA~#ykbTT,PV$<vb+OK.Xn.fETLA!3i
G|y5x+>%E+yU:jAjE8o+Cf>7kLNTh8+q@,6tjNiBJe?OX%r'n@>r$yFgGACV$`].(xN(CdCn6|BjMl<y0:I(2WlnJ:<1Fro$t8l5C:f3'&21;V
eaSS7,k6W=c=pbTTTA9pGtzYZWBf:L>MuPSpoTP..x>LdM4[]jWf+^[lpPyP1a>RT=q_5!(e$Dm<8=@![HREvDoQmR_d&'m[chTMAwXPHuBO*a
hiIbAM6UdI#^0b|Pc[%iwkFyhN#JsuQXPVP0qAFnyQFkYs'%^6VU8vCYwtElC'Ab$U*HEwK3s13JO'9V;;mU$QA$7nC?+c#,y~TH_M2najx2z]
QHa',OY't'UN.!!J,Q&fp@1CdQhy|r6JY/9)(Dp.g`&2_JN)b![o.pOikDLy;4cFR=X]]<P/ww>KUIW<.lRar/ei_H&O&RpV#HL&A84lJs21:K
^kF>qw!JCekTAAW:F/=Yh`Z:*kP.pn%Qg0b,u1%?[:E_^|o$Ypo)zA@$0~_Y:.1:,]EZxNE?HrLAh''q,3T`,~hkNW,`UPCd!XXNpNo.2fOW=f
2**hf%#!~s>0W~B*y=i2ZLORtf.T&GpX4^Ek>dU8?uX*z|Z0gU(<yY::Y#$38^<D(Hjx3l<eDfX~OBt%4$KXQY``32(bMesJ(WCo=yRR2>4n1P
oB;!r=~`~X;C$<J0s?=9.$&fAK|z<@0oGCiZ~mP]9LL.OGj])/Ijy~th@aWCvv5$Y35pU?Gpy6D*_PXHEWqz/0g@2wr:@y|3HGNwtazAyOV,p6
)Vl7[pe%HqNj+_&ZonMiPhliWHj>a;Hg5GVp#S6^z6HOnmCh_=8HP|V2nd^nQdtSR!=O_:u[g:jpd2O2_8&<6x%v$4HV91C/|'7i4fpvr6h*Hm
84Ta;%.|G~TpTJv.:Wz7<h>AX<qH_Ghw%ATI|M~;)vv~Yy3|=81wHJ/5nyu)m?p!.QR4mfB)P9CJTu<$;D9SbY_0tyxb#zBsRG7d7Vdf#^&]Rg
OSodKs'Ft,WJiQ:,KlS,cFWA(S'L_+;4:3E:p%Q7=Ruz&ZMKC]V3FUU1*2.!suF:=k(!H;n=lz;~4WM)#GuNf[Mb+:XzE_@BBtKgCONGWyn%Dq
(UX$ei#g]cXo9X'lSdDMz.?(eq(@i20?da,&QJd0t]*H82rWNE_7lwkqeV%N[Zmq_vcKo>1ka1Dz85Vgly;%Pxb<gx,K7a9u47)ty]Flxxahr^
nt%6F$z?_:_`WmXBZ$k14,PiFzjcI>Zyaz3&K/ZwEWBh)kW_VR#n/[lcdA$pcU]KJ>/Tbb;OpVU!DxcBiV5_?Steq'm6Os4y[(V%]1j#$zAf5P
C~ooi~CeJoV^e$5cwG#Av`W;:cqWg7KPM|WR9/JAcdk4Op0Aj@5:8er!~Qi`YBbP8&^].EQPhQI~r*+Xd`(*i&wd#X=BDhvJ^A7~i5obc,/':|
`[iS!8AG)lcqdOEil$&V@yhh_$Ozxb%mf&%g~m^'qZos'G>yKJM6@&;LQVZRd.v128xm5P|gMS%!~WqMm|(/im|OTw+ZBWj0;Y12`CD,ZaC=qY
8/x0A*0v`GK@eWJu*:?(u$*3JihgEjpl>N[M4k*9?Co3yp:rDtDLy&=#aIgzdK|&A06erv##]e8Jjz(pv:pu@F?A~vCWmCN5BQngp6s!(6kRoC
dW*$bmMFwKOaVVVH]c9bJrI&JQ)o;fuQ8??D[IY_,<&W9l3ic$62(LOpxf*OMaE2;.k6#&+wVY_1qp(Q#!`=7h[txjABdhoZ&=VVD<frX`>'O6
#''@r8LXc*v6'C5*9Q@XSoxWkvFL`k]cn27p9bsSDF[]'Ki/&Aqo!oXWy+YSg0LMry@S<1t4#0^2=la`S&iK&l&lSYuy]<vcgub6ZV;_e5m0V.
ra(%]woa=2IpN.^)UucnaiveZc%oqMa[hgZt=RZAx&02j/?;,z4^z:ERvGG07ucR1Q~wP3>zu64v*C<wropBB>@h~=(<~U5;Fd6.N|!(8=|.[f
8S2PI3hQ0mwf&dx1:j3&#pr@R5)3'~+$~=ck.BS*+R^@h$bf1BQb7on#em1Kcy?;cH)MS/3[F668r3l1HwgbHc@rK|M:woY:Q%2jU)$/P';4'Z
*1,EJR3i&+PWbYZ3d:1I4prv.nz7jT~t`/?8>Ccc1RZR8NPsp1=)oNJ9y@eTZs`j9'RBSPBku7^,5pstfn2;r~#om0*ir&vw0^(72%_.<Bnboi
Ed9?]g>t8/^8'[`j^9bk9t|N7o'$/w)$Zp?=u9MqxziFW4KQ(yk=ccQ/iRGFVoo%Rv@_[T^,H'V&,bZ*Nq'MH^IPNA,@*u&;mCVHoC.(WVE6gb
@iyrjJs0efmZ<f_d%LT(D~X`G]yaHe<W2TNB(ZNM%Is6OF[~)Q|p25w~0iuZSk1wkVjP#$+NA~l<7gCO|/QzHt8e1]<O&&X?E*E4#+GvFT~#xT
^,1D2UREk+a'C!n'T)DR],lO?#`zDW^<eexFp&F@I,h]||_rC<@XxS33xIx[w+VED,M)/amWjx~t!G)NCZY]I?<a.mfGf,UArUSO<AjGxA9f.l
QLlVZQzbzpf[>~bae/IFf1?waV/zctCAP7)Lg?.X]C>z^ZS<$&'(P9cN#LDA2F&`P2d]>5jT,2llKu7P#`dI=MV>P<j!#_nl|~yy7/UF/ISc)$
F1fkLC?SCk3T6^[`l~Jvz%vhJPPr"

def hexDigit (c : Char) : Nat :=
  if c.isDigit then c.toNat - 48 else c.toNat - 87

def hexNumber (s : String) : Nat := s.toList.foldl (fun n c ↦ n * 16 + hexDigit c) 0

def entitiesOf : List String → Table String String
  | name :: codes :: rest =>
    (name, String.ofList ((Text.splitBy "-" codes).map fun c ↦ Char.ofNat (hexNumber c)))
      :: entitiesOf rest
  | _ => []

def entities : Table String String := entitiesOf (Text.splitBy " " (Text.Packed.read 29726 entityTable))
/-- What the numbers from 128 to 159 stand for, which an old code page shares out. -/
def codePage : List Nat :=
  [0x20AC, 0x81, 0x201A, 0x192, 0x201E, 0x2026, 0x2020, 0x2021, 0x2C6, 0x2030, 0x160, 0x2039,
   0x152, 0x8D, 0x17D, 0x8F, 0x90, 0x2018, 0x2019, 0x201C, 0x201D, 0x2022, 0x2013, 0x2014,
   0x2DC, 0x2122, 0x161, 0x203A, 0x153, 0x9D, 0x17E, 0x178]

def isVoid (n : Nat) : Bool :=
  (1 ≤ n && n ≤ 8) || n == 11 || (14 ≤ n && n ≤ 31) || n == 127
    || (0xFDD0 ≤ n && n ≤ 0xFDEF) || n % 0x10000 == 0xFFFE || n % 0x10000 == 0xFFFF

def numberText (n : Nat) : List Char :=
  if n = 0 then ['�']
  else if 128 ≤ n ∧ n < 160 then [Char.ofNat ((codePage[n - 128]?).getD n)]
  else if (0xD800 ≤ n ∧ n ≤ 0xDFFF) ∨ 0x10FFFF < n then ['�']
  else if isVoid n then []
  else [Char.ofNat n]

def isHexDigit (c : Char) : Bool :=
  c.isDigit || ('a' ≤ c && c ≤ 'f') || ('A' ≤ c && c ≤ 'F')

def afterSemicolon : List Char → List Char
  | ';' :: rest => rest
  | cs => cs

/-- What the longest known start of a name stands for, followed by the rest of the name. -/
def longestKnown (name : List Char) : (length : Nat) → Option (List Char)
  | 0 => none
  | 1 => none
  | length + 2 =>
    match entities.get? (String.ofList (name.take (length + 2))) with
    | some text => some (text.toList ++ name.drop (length + 2))
    | none => longestKnown name (length + 1)

def nameText (name : List Char) : List Char :=
  match entities.get? (String.ofList name) with
  | some text => text.toList
  | none => (longestKnown name (name.length - 1)).getD ('&' :: name)

def isNamePart (c : Char) : Bool :=
  !(c == '\t' || c == '\n' || c.toNat == 12 || c == ' ' || c == '<' || c == '&' || c == '#'
    || c == ';')

/-- What a reference stands for, and what follows it; the mark that starts it is already read. -/
def reference? : List Char → Option (List Char × List Char)
  | '#' :: x :: rest =>
    if x.isDigit then
      let digits := (x :: rest).takeWhile Char.isDigit
      some (numberText (digits.foldl (fun n c ↦ n * 10 + (c.toNat - 48)) 0),
        afterSemicolon ((x :: rest).dropWhile Char.isDigit))
    else if (x = 'x' ∨ x = 'X') ∧ (rest.takeWhile isHexDigit) ≠ [] then
      let digits := (rest.takeWhile isHexDigit).map Char.toLower
      some (numberText (digits.foldl (fun n c ↦ n * 16 + hexDigit c) 0),
        afterSemicolon (rest.dropWhile isHexDigit))
    else none
  | cs =>
    let run := (cs.takeWhile isNamePart).take 32
    if run.isEmpty then none
    else
      match cs.drop run.length with
      | ';' :: rest => some (nameText (run ++ [';']), rest)
      | rest => some (nameText run, rest)

def unescapeFrom : (steps : Nat) → List Char → List Char
  | 0, cs => cs
  | _, [] => []
  | steps + 1, '&' :: rest =>
    match reference? rest with
    | some (text, rest) => text ++ unescapeFrom steps rest
    | none => '&' :: unescapeFrom steps rest
  | steps + 1, c :: rest => c :: unescapeFrom steps rest

def unescape (s : String) : String := String.ofList (unescapeFrom s.length s.toList)
open Text

/-- An attribute; one without a value differs from one with an empty value. -/
structure Attribute where
  name : String
  value : Option String
deriving DecidableEq, Repr

structure Tag where
  name : String
  attributes : List Attribute
  /-- The line of the mark that opens the tag. -/
  line : Nat
deriving DecidableEq, Repr

def isTagNamePart (c : Char) : Bool :=
  !(c == '\t' || c == '\n' || c == '\r' || c.toNat == 12 || c == ' ' || c == '/' || c == '>'
    || c.toNat == 0)

def isGap (c : Char) : Bool := isBlank c || c == '/'

/-- Drops blanks and slashes, but not the slash of a closing `/>`; gives the last character dropped,
or the given one, and how many were dropped beside the given number. -/
def dropGap (before : Char) (size : Nat) : List Char → Char × Nat × List Char
  | '/' :: '>' :: rest => (before, size, '/' :: '>' :: rest)
  | c :: rest => if isGap c then dropGap c (size + 1) rest else (before, size, c :: rest)
  | [] => (before, size, [])

/-- What stands between a quotation mark and the next one like it, with the rest. -/
def quoted? (mark : Char) (cs : List Char) : Option (List Char × List Char) :=
  match cs.dropWhile (· != mark) with
  | [] => none
  | _ :: rest => some (cs.takeWhile (· != mark), rest)

def isBarePart (c : Char) : Bool := !(c == '>' || isBlank c)

/-- A value, the last character of it, how many characters it took, and what follows it. -/
structure Value where
  text : List Char
  last : Char
  size : Nat
  rest : List Char

def bareValue (before : Char) (cs : List Char) : Value :=
  let text := cs.takeWhile isBarePart
  ⟨text, text.getLastD before, text.length, cs.dropWhile isBarePart⟩

/-- A value at the start of a list: quoted, or bare and without a quotation mark in front. -/
def value? (before : Char) : List Char → Option Value
  | '\'' :: rest =>
    (quoted? '\'' rest).map fun (text, rest) ↦ ⟨text, '\'', text.length + 2, rest⟩
  | '"' :: rest => (quoted? '"' rest).map fun (text, rest) ↦ ⟨text, '"', text.length + 2, rest⟩
  | cs => some (bareValue before cs)

/-- The value after an equals sign. Where a quotation mark is never closed, a blank before it makes
the value empty, and a second equals sign makes the value bare. -/
def assigned? (cs : List Char) : Option Value :=
  let lead := (cs.takeWhile isBlank).length
  let cs := cs.drop lead
  let signs := (cs.takeWhile (· == '=')).length
  if signs = 0 then none
  else
    let after := cs.drop signs
    let blanks := after.takeWhile isBlank
    match value? (blanks.getLastD '=') (after.drop blanks.length) with
    | some found => some { found with size := lead + signs + blanks.length + found.size }
    | none =>
      if blanks ≠ [] then
        some ⟨[], '=', lead + signs + blanks.length - 1, after.drop (blanks.length - 1)⟩
      else if 2 ≤ signs then
        let found := bareValue '=' ('=' :: after)
        some { found with size := lead + signs - 1 + found.size }
      else none

def isAttributeStart (c : Char) : Bool := !(isBlank c || c == '/' || c == '>')

def isAttributePart (c : Char) : Bool :=
  !(isBlank c || c == '/' || c == '=' || c == '>')

def opensAttribute (c : Char) : Bool := c == '\'' || c == '"' || isGap c

/-- An attribute, the last character read, how many were read, and what follows the gap after it. -/
structure Read where
  found : Attribute
  last : Char
  size : Nat
  rest : List Char

def attribute? (before : Char) (cs : List Char) : Option Read :=
  match cs with
  | c :: rest =>
    if opensAttribute before && isAttributeStart c then
      let name := c :: rest.takeWhile isAttributePart
      let rest := rest.dropWhile isAttributePart
      let shown := lower (String.ofList name)
      match assigned? rest with
      | some v =>
        let (last, size, rest) := dropGap v.last (name.length + v.size) v.rest
        some ⟨⟨shown, some (unescape (String.ofList v.text))⟩, last, size, rest⟩
      | none =>
        let (last, size, rest) := dropGap (name.getLastD c) name.length rest
        some ⟨⟨shown, none⟩, last, size, rest⟩
    else none
  | [] => none

/-- All attributes that follow one another, how many characters they take, and the rest. -/
def attributes : (steps : Nat) → (before : Char) → List Char → List Attribute × Nat × List Char
  | 0, _, cs => ([], 0, cs)
  | steps + 1, before, cs =>
    match attribute? before cs with
    | none => ([], 0, cs)
    | some r =>
      let (more, size, left) := attributes steps r.last r.rest
      (r.found :: more, r.size + size, left)

/-- How a start tag ends, how many characters it takes, and what follows it. -/
inductive StartTag
  /-- The text ends within the tag. -/
  | unfinished
  /-- What looked like a tag is text. -/
  | text (size : Nat) (rest : List Char)
  | tag (name : String) (attributes : List Attribute) (selfClosing : Bool) (size : Nat) (rest : List Char)

/-- The end of a tag: how many characters close it and what stands after them, or where it stops
being a tag; nothing if the text ends within it. -/
def tagEnd? (cs : List Char) : Option (Nat × List Char) :=
  match cs with
  | '>' :: rest => some (1, rest)
  | '/' :: '>' :: rest => some (2, rest)
  | [] => none
  | c :: _ => if c.isAlpha || c == '=' || c == '/' then none else some (0, cs)

/-- Reads a start tag; the list begins after its opening mark and is no longer than `steps`. -/
def startTag (steps : Nat) (whole : List Char) : StartTag :=
  let name := whole.takeWhile isTagNamePart
  let afterName := whole.dropWhile isTagNamePart
  let last := name.getLastD '<'
  let gap := afterName.takeWhile isGap
  let (_, inner, afterAll) := attributes steps (gap.getLastD last) (afterName.drop gap.length)
  let blanks := (afterAll.takeWhile isBlank).length
  match tagEnd? (afterAll.drop blanks) with
  | none => .unfinished
  | some (closing, rest) =>
    let size := name.length + gap.length + inner + blanks + closing
    let (before, gapSize, start) := dropGap last 0 afterName
    let (found, foundSize, left) := attributes steps before start
    let ending := trim (String.ofList (left.take (size - (name.length + gapSize + foundSize))))
    if ending == ">" || ending == "/>" then
      .tag (lower (String.ofList name)) found (ending == "/>") size rest
    else .text size rest

/-- A place further on in a text, and how many lines end before it. -/
structure Place where
  lines : Nat
  rest : List Char

def lineOf (c : Char) : Nat := if c = '\n' then 1 else 0

def afterFirst? (mark : Char) (lines : Nat) : List Char → Option Place
  | [] => none
  | c :: rest =>
    if c = mark then some ⟨lines, rest⟩ else afterFirst? mark (lines + lineOf c) rest

/-- The place behind a closing mark that only blanks may precede. -/
def closing? (lines : Nat) : List Char → Option Place
  | [] => none
  | c :: rest =>
    if c = '>' then some ⟨lines, rest⟩
    else if isBlank c then closing? (lines + lineOf c) rest
    else none

/-- The place behind the first spot where the given characters stand before a closing mark, with
blanks between them allowed. -/
def afterClosed? (marks : List Char) (lines : Nat) : List Char → Option Place
  | [] => none
  | c :: rest =>
    match (afterList? marks (c :: rest)).bind (closing? lines) with
    | some found => some found
    | none => afterClosed? marks (lines + lineOf c) rest

/-- The place behind a second bracket and a closing mark that only blanks may precede. -/
def secondBracket? (lines : Nat) : List Char → Option Place
  | [] => none
  | c :: rest =>
    if c = ']' then closing? lines rest
    else if isBlank c then secondBracket? (lines + lineOf c) rest
    else none

/-- The place behind the first closing of a section of two brackets. -/
def afterSection? (lines : Nat) : List Char → Option Place
  | [] => none
  | c :: rest =>
    match (if c = ']' then secondBracket? lines rest else none) with
    | some found => some found
    | none => afterSection? (lines + lineOf c) rest

def isSectionPart (c : Char) : Bool :=
  c.isAlphanum || c == '-' || c == '_' || c == '.'

/-- A marked section, given the text from its opening mark on and from behind its opening bracket
on. Nothing means that it is unfinished. -/
def markedSection (here cs : List Char) : Except Fault (Option Place) :=
  match cs with
  | [] => .ok none
  | c :: _ =>
    if c.isAlpha then
      let name := cs.takeWhile isSectionPart
      let gap := (cs.drop name.length).takeWhile isBlank
      let rest := cs.drop (name.length + gap.length)
      if rest.isEmpty then .ok none
      else
        let word := lower (String.ofList name)
        if ["temp", "cdata", "ignore", "include", "rcdata"].contains word then
          .ok (afterSection? 0 cs)
        else if ["if", "else", "endif"].contains word then .ok (afterClosed? [']'] 0 cs)
        else .error (.malformedMarkup
          s!"unknown status keyword {Text.shownText (String.ofList (name ++ gap))} in marked section")
    else .error (.malformedMarkup s!"expected name token at {Text.shownText (String.ofList (here.take 20))}")

/-- The place behind the end tag of an element whose content is no markup. -/
def afterRaw? (element : List Char) (lines : Nat) : List Char → Option Place
  | [] => none
  | '<' :: '/' :: rest =>
    let blanks := rest.takeWhile isBlank
    let inner := rest.drop blanks.length
    let found :=
      if (inner.take element.length).map Char.toLower = element then
        closing? (lines + countLines blanks) (inner.drop element.length)
      else none
    match found with
    | some place => some place
    | none => afterRaw? element lines ('/' :: rest)
  | c :: rest => afterRaw? element (lines + lineOf c) rest

/-- The tags of a text, and the fault that ended the reading if there was one. -/
structure Scan where
  tags : List Tag := []
  fault : Option Fault := none

def scanFrom : (steps : Nat) → (line : Nat) → (raw : Option String) → List Char → Scan
  | 0, _, _, _ => {}
  | steps + 1, line, some element, cs =>
    match afterRaw? element.toList line cs with
    | none => {}
    | some place => scanFrom steps place.lines none place.rest
  | steps + 1, line, none, cs =>
    let text := cs.takeWhile (· != '<')
    let line := line + countLines text
    let here := cs.drop text.length
    let goOn (found : Option Place) : Scan :=
      match found with
      | none => {}
      | some place => scanFrom steps place.lines none place.rest
    match here with
    | '<' :: '!' :: '-' :: '-' :: rest => goOn (afterClosed? ['-', '-'] line rest)
    | '<' :: '!' :: '[' :: rest =>
      match markedSection here rest with
      | .ok found => goOn (found.map fun p ↦ ⟨line + p.lines, p.rest⟩)
      | .error f => { fault := some f }
    | '<' :: '!' :: rest => goOn (afterFirst? '>' line rest)
    | '<' :: '?' :: rest => goOn (afterFirst? '>' line rest)
    | '<' :: '/' :: rest => goOn (afterFirst? '>' line rest)
    | '<' :: c :: rest =>
      if c.isAlpha then
        match startTag steps (c :: rest) with
        | .unfinished => {}
        | .text size rest => goOn (some ⟨line + countLines (here.take (size + 1)), rest⟩)
        | .tag name attributes selfClosing size rest =>
          let raw :=
            if !selfClosing && (name == "script" || name == "style") then some name else none
          let more := scanFrom steps (line + countLines (here.take (size + 1))) raw rest
          { more with tags := ⟨name, attributes, line⟩ :: more.tags }
      else goOn (some ⟨line, c :: rest⟩)
    | _ => {}

def scan (text : String) : Scan := scanFrom (text.length + 1) 1 none text.toList

end CodeAtlas.Markup
