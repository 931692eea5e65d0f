import EntityGraph.Unicode.Runs

/-!
# Scripts

Every code point belongs to one script, named by four letters: `Latn`, `Grek`, `Zyyy` for the common
ones. Some are used with further scripts, their script extensions.
-/
namespace EntityGraph.Unicode

/-- The entries of a table: they end with semicolons, and their words are separated by blanks. -/
def entries (text : String) : List (List String) := (Text.split ';' text).map Text.words

/-- Each script with its names in loose form. -/
def scriptNames : List (List String) := entries
  (String.join [
    "Adlm adlm adlam; Aghb aghb caucasianalbanian; Ahom ahom; Arab arab arabic; Armi armi ",
    "imperialaramaic; Armn armn armenian; Avst avst avestan; Bali bali balinese; Bamu bamu ",
    "bamum; Bass bass bassavah; Batk batk batak; Beng beng bengali; Bhks bhks bhaiksuki; Bopo ",
    "bopo bopomofo; Brah brah brahmi; Brai brai braille; Bugi bugi buginese; Buhd buhd buhid; ",
    "Cakm cakm chakma; Cans cans canadianaboriginal; Cari cari carian; Cham cham; Cher cher ",
    "cherokee; Chrs chrs chorasmian; Copt copt coptic qaac; Cpmn cpmn cyprominoan; Cprt cprt ",
    "cypriot; Cyrl cyrl cyrillic; Deva deva devanagari; Diak diak divesakuru; Dogr dogr ",
    "dogra; Dsrt dsrt deseret; Dupl dupl duployan; Egyp egyp egyptianhieroglyphs; Elba elba ",
    "elbasan; Elym elym elymaic; Ethi ethi ethiopic; Geor geor georgian; Glag glag ",
    "glagolitic; Gong gong gunjalagondi; Gonm gonm masaramgondi; Goth goth gothic; Gran gran ",
    "grantha; Grek grek greek; Gujr gujr gujarati; Guru guru gurmukhi; Hang hang hangul; Hani ",
    "hani han; Hano hano hanunoo; Hatr hatr hatran; Hebr hebr hebrew; Hira hira hiragana; ",
    "Hluw hluw anatolianhieroglyphs; Hmng hmng pahawhhmong; Hmnp hmnp nyiakengpuachuehmong; ",
    "Hrkt ; Hung hung oldhungarian; Ital ital olditalic; Java java javanese; Kali kali ",
    "kayahli; Kana kana katakana; Kawi kawi; Khar khar kharoshthi; Khmr khmr khmer; Khoj khoj ",
    "khojki; Kits kits khitansmallscript; Knda knda kannada; Kthi kthi kaithi; Lana lana ",
    "taitham; Laoo laoo lao; Latn latn latin; Lepc lepc lepcha; Limb limb limbu; Lina lina ",
    "lineara; Linb linb linearb; Lisu lisu; Lyci lyci lycian; Lydi lydi lydian; Mahj mahj ",
    "mahajani; Maka maka makasar; Mand mand mandaic; Mani mani manichaean; Marc marc marchen; ",
    "Medf medf medefaidrin; Mend mend mendekikakui; Merc merc meroiticcursive; Mero mero ",
    "meroitichieroglyphs; Mlym mlym malayalam; Modi modi; Mong mong mongolian; Mroo mroo mro; ",
    "Mtei mtei meeteimayek; Mult mult multani; Mymr mymr myanmar; Nagm nagm nagmundari; Nand ",
    "nand nandinagari; Narb narb oldnortharabian; Nbat nbat nabataean; Newa newa; Nkoo nkoo ",
    "nko; Nshu nshu nushu; Ogam ogam ogham; Olck olck olchiki; Orkh orkh oldturkic; Orya orya ",
    "oriya; Osge osge osage; Osma osma osmanya; Ougr ougr olduyghur; Palm palm palmyrene; ",
    "Pauc pauc paucinhau; Perm perm oldpermic; Phag phag phagspa; Phli phli ",
    "inscriptionalpahlavi; Phlp phlp psalterpahlavi; Phnx phnx phoenician; Plrd plrd miao; ",
    "Prti prti inscriptionalparthian; Rjng rjng rejang; Rohg rohg hanifirohingya; Runr runr ",
    "runic; Samr samr samaritan; Sarb sarb oldsoutharabian; Saur saur saurashtra; Sgnw sgnw ",
    "signwriting; Shaw shaw shavian; Shrd shrd sharada; Sidd sidd siddham; Sind sind ",
    "khudawadi; Sinh sinh sinhala; Sogd sogd sogdian; Sogo sogo oldsogdian; Sora sora ",
    "sorasompeng; Soyo soyo soyombo; Sund sund sundanese; Sylo sylo sylotinagri; Syrc syrc ",
    "syriac; Tagb tagb tagbanwa; Takr takr takri; Tale tale taile; Talu talu newtailue; Taml ",
    "taml tamil; Tang tang tangut; Tavt tavt taiviet; Telu telu telugu; Tfng tfng tifinagh; ",
    "Tglg tglg tagalog; Thaa thaa thaana; Thai thai; Tibt tibt tibetan; Tirh tirh tirhuta; ",
    "Tnsa tnsa tangsa; Toto toto; Ugar ugar ugaritic; Vaii vaii vai; Vith vith vithkuqi; Wara ",
    "wara warangciti; Wcho wcho wancho; Xpeo xpeo oldpersian; Xsux xsux cuneiform; Yezi yezi ",
    "yezidi; Yiii yiii yi; Zanb zanb zanabazarsquare; Zinh zinh inherited qaai; Zyyy zyyy ",
    "common; Zzzz zzzz unknown"])

/-- The script of a name in loose form. -/
def script? (name : String) : Option String :=
  (scriptNames.find? fun entry => entry.tail.contains name).bind (·.head?)

def scriptRuns : Partition := .ofText 4
  (String.join [
    "41Zyyy1aLatn6Zyyy1aLatn2fZyyy1LatnfZyyy1Latn5Zyyy17Latn1Zyyy1fLatn1Zyyy1c1Latn27Zyyy5Latn",
    "5Zyyy2Bopo14Zyyy70Zinh4Grek1Zyyy3Grek2Zzzz4Grek1Zyyy1Grek4Zzzz1Grek1Zyyy1Grek1Zyyy3Grek1Z",
    "zzz1Grek1Zzzz14Grek1Zzzz3fGrekeCopt10Grek85Cyrl2Zinha9Cyrl1Zzzz26Armn2Zzzz32Armn2Zzzz3Arm",
    "n1Zzzz37Hebr8Zzzz1bHebr4Zzzz6HebrbZzzz5Arab1Zyyy6Arab1ZyyyeArab1Zyyy3Arab1Zyyy20Arab1Zyyy",
    "aArabbZinh1aArab1Zinh6cArab1Zyyy22ArabeSyrc1Zzzz3cSyrc2Zzzz3Syrc30Arab32ThaaeZzzz3bNkoo2Z",
    "zzz3Nkoo2eSamr2ZzzzfSamr1Zzzz1cMand2Zzzz1Mand1ZzzzbSyrc5Zzzz1fArab1Zzzz2Arab6Zzzz4aArab1Z",
    "yyy1dArab51Deva4ZinhfDeva2Zyyy1aDeva4Beng1Zzzz8Beng2Zzzz2Beng2Zzzz16Beng1Zzzz7Beng1Zzzz1B",
    "eng3Zzzz4Beng2Zzzz9Beng2Zzzz2Beng2Zzzz4Beng8Zzzz1Beng4Zzzz2Beng1Zzzz5Beng2Zzzz19Beng2Zzzz",
    "3Guru1Zzzz6Guru4Zzzz2Guru2Zzzz16Guru1Zzzz7Guru1Zzzz2Guru1Zzzz2Guru1Zzzz2Guru2Zzzz1Guru1Zz",
    "zz5Guru4Zzzz2Guru2Zzzz3Guru3Zzzz1Guru7Zzzz4Guru1Zzzz1Guru7Zzzz11GuruaZzzz3Gujr1Zzzz9Gujr1",
    "Zzzz3Gujr1Zzzz16Gujr1Zzzz7Gujr1Zzzz2Gujr1Zzzz5Gujr2ZzzzaGujr1Zzzz3Gujr1Zzzz3Gujr2Zzzz1Guj",
    "rfZzzz4Gujr2ZzzzcGujr7Zzzz7Gujr1Zzzz3Orya1Zzzz8Orya2Zzzz2Orya2Zzzz16Orya1Zzzz7Orya1Zzzz2O",
    "rya1Zzzz5Orya2Zzzz9Orya2Zzzz2Orya2Zzzz3Orya7Zzzz3Orya4Zzzz2Orya1Zzzz5Orya2Zzzz12OryaaZzzz",
    "2Taml1Zzzz6Taml3Zzzz3Taml1Zzzz4Taml3Zzzz2Taml1Zzzz1Taml1Zzzz2Taml3Zzzz2Taml3Zzzz3Taml3Zzz",
    "zcTaml4Zzzz5Taml3Zzzz3Taml1Zzzz4Taml2Zzzz1Taml6Zzzz1TamleZzzz15Taml5ZzzzdTelu1Zzzz3Telu1Z",
    "zzz17Telu1Zzzz10Telu2Zzzz9Telu1Zzzz3Telu1Zzzz4Telu7Zzzz2Telu1Zzzz3Telu2Zzzz1Telu2Zzzz4Tel",
    "u2ZzzzaTelu7Zzzz9TeludKnda1Zzzz3Knda1Zzzz17Knda1ZzzzaKnda1Zzzz5Knda2Zzzz9Knda1Zzzz3Knda1Z",
    "zzz4Knda7Zzzz2Knda6Zzzz2Knda1Zzzz4Knda2ZzzzaKnda1Zzzz3KndacZzzzdMlym1Zzzz3Mlym1Zzzz33Mlym",
    "1Zzzz3Mlym1Zzzz6Mlym4Zzzz10Mlym2Zzzz1aMlym1Zzzz3Sinh1Zzzz12Sinh3Zzzz18Sinh1Zzzz9Sinh1Zzzz",
    "1Sinh2Zzzz7Sinh3Zzzz1Sinh4Zzzz6Sinh1Zzzz1Sinh1Zzzz8Sinh6ZzzzaSinh2Zzzz3SinhcZzzz3aThai4Zz",
    "zz1Zyyy1cThai25Zzzz2Laoo1Zzzz1Laoo1Zzzz5Laoo1Zzzz18Laoo1Zzzz1Laoo1Zzzz17Laoo2Zzzz5Laoo1Zz",
    "zz1Laoo1Zzzz7Laoo1ZzzzaLaoo2Zzzz4Laoo20Zzzz48Tibt1Zzzz24Tibt4Zzzz27Tibt1Zzzz24Tibt1ZzzzfT",
    "ibt1Zzzz7Tibt4Zyyy2Tibt25Zzzza0Mymr26Geor1Zzzz1Geor5Zzzz1Geor2Zzzz2bGeor1Zyyy4Geor100Hang",
    "49Ethi1Zzzz4Ethi2Zzzz7Ethi1Zzzz1Ethi1Zzzz4Ethi2Zzzz29Ethi1Zzzz4Ethi2Zzzz21Ethi1Zzzz4Ethi2",
    "Zzzz7Ethi1Zzzz1Ethi1Zzzz4Ethi2ZzzzfEthi1Zzzz39Ethi1Zzzz4Ethi2Zzzz43Ethi2Zzzz20Ethi3Zzzz1a",
    "Ethi6Zzzz56Cher2Zzzz6Cher2Zzzz280Cans1dOgam3Zzzz4bRunr3ZyyybRunr7Zzzz16Tglg9Zzzz1Tglg15Ha",
    "no2Zyyy9Zzzz14BuhdcZzzzdTagb1Zzzz3Tagb1Zzzz2TagbcZzzz5eKhmr2ZzzzaKhmr6ZzzzaKhmr6Zzzz2Mong",
    "2Zyyy1Mong1Zyyy14Mong6Zzzz59Mong7Zzzz2bMong5Zzzz46CansaZzzz1fLimb1ZzzzcLimb4ZzzzcLimb4Zzz",
    "z1Limb3ZzzzcLimb1eTale2Zzzz5TalebZzzz2cTalu4Zzzz1aTalu6ZzzzbTalu3Zzzz2Talu20Khmr1cBugi2Zz",
    "zz2Bugi3fLana1Zzzz1dLana2ZzzzbLana6ZzzzaLana6ZzzzeLana2Zzzz1fZinh31Zzzz4dBali3Zzzz2fBali1",
    "Zzzz40Sund34Batk8Zzzz4Batk38Lepc3ZzzzfLepc3Zzzz3Lepc30Olck9Cyrl7Zzzz2bGeor2Zzzz3Geor8Sund",
    "8Zzzz3Zinh1ZyyydZinh1Zyyy7Zinh4Zyyy1Zinh6Zyyy1Zinh3Zyyy2Zinh1Zyyy5Zzzz26Latn5Grek1Cyrl31L",
    "atn5Grek4Latn5GrekdLatn1Cyrl46Latn1Grek40Zinh100Latn16Grek2Zzzz6Grek2Zzzz26Grek2Zzzz6Grek",
    "2Zzzz8Grek1Zzzz1Grek1Zzzz1Grek1Zzzz1Grek1Zzzz1fGrek2Zzzz35Grek1ZzzzfGrek1ZzzzeGrek2Zzzz6G",
    "rek1Zzzz13Grek2Zzzz3Grek1Zzzz9Grek1ZzzzcZyyy2Zinh57Zyyy1ZzzzbZyyy1Latn2ZzzzbZyyy1LatnfZyy",
    "y1ZzzzdLatn3Zzzz21ZyyyfZzzz21ZinhfZzzz26Zyyy1Grek3Zyyy2Latn6Zyyy1Latn1bZyyy1Latn11Zyyy29L",
    "atn3Zyyy4Zzzz297Zyyy19ZzzzbZyyy15Zzzz3a0Zyyy100Brai274Zyyy2Zzzz20Zyyy1Zzzz69Zyyy60Glag20L",
    "atn74Copt5Zzzz7Copt26Geor1Zzzz1Geor5Zzzz1Geor2Zzzz38Tfng7Zzzz2TfngeZzzz1Tfng17Ethi9Zzzz7E",
    "thi1Zzzz7Ethi1Zzzz7Ethi1Zzzz7Ethi1Zzzz7Ethi1Zzzz7Ethi1Zzzz7Ethi1Zzzz7Ethi1Zzzz20Cyrl5eZyy",
    "y22Zzzz1aHani1Zzzz59HanicZzzzd6Hani1aZzzzcZyyy4Zzzz5Zyyy1Hani1Zyyy1Hani19Zyyy9Hani4Zinh2H",
    "ang8Zyyy4Hani4Zyyy1Zzzz56Hira2Zzzz2Zinh2Zyyy3Hira1Zyyy5aKana2Zyyy3Kana5Zzzz2bBopo1Zzzz5eH",
    "ang1Zzzz10Zyyy20Bopo24ZyyycZzzz10Kana1fHang1Zzzz40Zyyy1fHang51Zyyy2fKana1Zyyy58Kanaa8Zyyy",
    "19c0Hani40Zyyy5200Hani48dYiii3Zzzz37Yiii9Zzzz30Lisu12cVaii14Zzzz60Cyrl58Bamu8Zzzz22Zyyy66",
    "Latn3Zyyy40Latn5Zzzz2Latn1Zzzz1Latn1Zzzz5Latn18ZzzzeLatn2dSylo3ZzzzaZyyy6Zzzz38Phag8Zzzz4",
    "6Saur8ZzzzcSaur6Zzzz20Deva2eKali1Zyyy1Kali24RjngbZzzz1Rjng1dHang3Zzzz4eJava1Zzzz1ZyyyaJav",
    "a4Zzzz2Java1fMymr1Zzzz37Cham9ZzzzeCham2ZzzzaCham2Zzzz4Cham20Mymr43Tavt18Zzzz5Tavt17MteiaZ",
    "zzz6Ethi2Zzzz6Ethi2Zzzz6Ethi9Zzzz7Ethi1Zzzz7Ethi1Zzzz2bLatn1Zyyy9Latn1Grek4Latn2Zyyy4Zzzz",
    "50Cher2eMtei2ZzzzaMtei6Zzzz2ba4HangcZzzz17Hang4Zzzz31Hang2104Zzzz16eHani2Zzzz6aHani26Zzzz",
    "7LatncZzzz5Armn5Zzzz1aHebr1Zzzz5Hebr1Zzzz1Hebr1Zzzz2Hebr1Zzzz2Hebr1ZzzzaHebr73Arab10Zzzz1",
    "6bArab2Zyyy50Arab2Zzzz36Arab7Zzzz1Arab20Zzzz10Arab10ZinhaZyyy6ZzzzeZinh2Cyrl23Zyyy1Zzzz13",
    "Zyyy1Zzzz4Zyyy4Zzzz5Arab1Zzzz87Arab2Zzzz1Zyyy1Zzzz20Zyyy1aLatn6Zyyy1aLatnbZyyyaKana1Zyyy2",
    "dKana2Zyyy1fHang3Zzzz6Hang2Zzzz6Hang2Zzzz6Hang2Zzzz3Hang3Zzzz7Zyyy1Zzzz7ZyyyaZzzz5Zyyy2Zz",
    "zzcLinb1Zzzz1aLinb1Zzzz13Linb1Zzzz2Linb1ZzzzfLinb2ZzzzeLinb22Zzzz7bLinb5Zzzz3Zyyy4Zzzz2dZ",
    "yyy3Zzzz9Zyyy4fGrek1ZzzzdZyyy3Zzzz1Grek2fZzzz2dZyyy1Zinh82Zzzz1dLyci3Zzzz31CarifZzzz1Zinh",
    "1bZyyy4Zzzz24Ital9Zzzz3Ital1bGoth5Zzzz2bPerm5Zzzz1eUgar1Zzzz1Ugar24Xpeo4ZzzzeXpeo2aZzzz50",
    "Dsrt30Shaw1eOsma2ZzzzaOsma6Zzzz24Osge4Zzzz24Osge4Zzzz28Elba8Zzzz34AghbbZzzz1AghbbVith1Zzz",
    "zfVith1Zzzz7Vith1Zzzz2Vith1ZzzzbVith1ZzzzfVith1Zzzz7Vith1Zzzz2Vith43Zzzz137Lina9Zzzz16Lin",
    "aaZzzz8Lina18Zzzz6Latn1Zzzz2aLatn1Zzzz9Latn45Zzzz6Cprt2Zzzz1Cprt1Zzzz2cCprt1Zzzz2Cprt3Zzz",
    "z1Cprt2Zzzz1Cprt16Armi1Zzzz9Armi20Palm1fNbat8Zzzz9Nbat30Zzzz13Hatr1Zzzz2Hatr5Zzzz5Hatr1cP",
    "hnx3Zzzz1Phnx1aLydi5Zzzz1Lydi40Zzzz20Mero18Merc4Zzzz14Merc2Zzzz2eMerc4Khar1Zzzz2Khar5Zzzz",
    "8Khar1Zzzz3Khar1Zzzz1dKhar2Zzzz3Khar4ZzzzaKhar7Zzzz9Khar7Zzzz20Sarb20Narb20Zzzz27Mani4Zzz",
    "zcMani9Zzzz36Avst3Zzzz7Avst16Prti2Zzzz8Prti13Phli5Zzzz8Phli12Phlp7Zzzz4PhlpcZzzz7Phlp50Zz",
    "zz49Orkh37Zzzz33HungdZzzz33Hung7Zzzz6Hung28Rohg8ZzzzaRohg126Zzzz1fArab1Zzzz2aYezi1Zzzz3Ye",
    "zi2Zzzz2Yezi4bZzzz3Arab28Sogo8Zzzz2aSogd16Zzzz1aOugr26Zzzz1cChrs14Zzzz17Elym9Zzzz4eBrah4Z",
    "zzz24Brah9Zzzz1Brah43KthiaZzzz1Kthi2Zzzz19Sora7ZzzzaSora6Zzzz35Cakm1Zzzz12Cakm8Zzzz27Mahj",
    "9Zzzz60Shrd1Zzzz14SinhbZzzz12Khoj1Zzzz2fKhoj3eZzzz7Mult1Zzzz1Mult1Zzzz4Mult1ZzzzfMult1Zzz",
    "zbMult6Zzzz3bSind5ZzzzaSind6Zzzz4Gran1Zzzz8Gran2Zzzz2Gran2Zzzz16Gran1Zzzz7Gran1Zzzz2Gran1",
    "Zzzz5Gran1Zzzz1Zinh9Gran2Zzzz2Gran2Zzzz3Gran2Zzzz1Gran6Zzzz1Gran5Zzzz7Gran2Zzzz7Gran3Zzzz",
    "5Gran8bZzzz5cNewa1Zzzz5Newa1eZzzz48Tirh8ZzzzaTirha6Zzzz36Sidd2Zzzz26Sidd22Zzzz45ModibZzzz",
    "aModi6ZzzzdMong13Zzzz3aTakr6ZzzzaTakr36Zzzz1bAhom2ZzzzfAhom4Zzzz17Ahomb9Zzzz3cDogr64Zzzz5",
    "3WaracZzzz1Wara7Diak2Zzzz1Diak2Zzzz8Diak1Zzzz2Diak1Zzzz1eDiak1Zzzz2Diak2ZzzzcDiak9ZzzzaDi",
    "ak46Zzzz8Nand2Zzzz2eNand2ZzzzbNand1bZzzz48Zanb8Zzzz53SoyodZzzz10Cans39Pauc7ZzzzaDevaf6Zzz",
    "z9Bhks1Zzzz2dBhks1ZzzzeBhksaZzzz1dBhks3Zzzz20Marc2Zzzz16Marc1ZzzzeMarc49Zzzz7Gonm1Zzzz2Go",
    "nm1Zzzz2cGonm3Zzzz1Gonm1Zzzz2Gonm1Zzzz9Gonm8ZzzzaGonm6Zzzz6Gong1Zzzz2Gong1Zzzz25Gong1Zzzz",
    "2Gong1Zzzz6Gong7ZzzzaGong136Zzzz19Maka7Zzzz11Kawi1Zzzz29Kawi3Zzzz1cKawi56Zzzz1LisufZzzz32",
    "TamldZzzz1Taml39aXsux66Zzzz6fXsux1Zzzz5XsuxbZzzzc4Xsuxa4cZzzz63CpmndZzzz456EgypfaaZzzz247",
    "Hluw21b9Zzzz239Bamu7Zzzz1fMroo1ZzzzaMroo4Zzzz2Mroo4fTnsa1ZzzzaTnsa6Zzzz1eBass2Zzzz6BassaZ",
    "zzz46HmngaZzzzaHmng1Zzzz7Hmng1Zzzz15Hmng5Zzzz13Hmng2b0Zzzz5bMedf65Zzzz4bPlrd4Zzzz39Plrd7Z",
    "zzz11Plrd40Zzzz1Tang1Nshu2Hani1KitsbZzzz2HanieZzzz17f8Tang8Zzzz300Tang1d6Kits2aZzzz9Tang2",
    "2e7Zzzz4Kana1Zzzz7Kana1Zzzz2Kana1Zzzz1Kana11fHira3KanafZzzz1Hira1dZzzz3Hira2Zzzz1KanaeZzz",
    "z4Kana8Zzzz18cNshu904Zzzz6bDupl5ZzzzdDupl3Zzzz9Dupl7ZzzzaDupl2Zzzz4Dupl4Zyyy125cZzzz2eZin",
    "h2Zzzz17Zinh9Zzzz74Zyyy3cZzzzf6ZyyyaZzzz27Zyyy2Zzzz3eZyyy3Zinh11Zyyy8Zinh2Zyyy7Zinh1eZyyy",
    "4Zinh3dZyyy15Zzzz46Grek7aZzzz14ZyyycZzzz14ZyyycZzzz57Zyyy9Zzzz19Zyyy87Zzzz55Zyyy1Zzzz47Zy",
    "yy1Zzzz2Zyyy2Zzzz1Zyyy2Zzzz2Zyyy2Zzzz4Zyyy1ZzzzcZyyy1Zzzz1Zyyy1Zzzz7Zyyy1Zzzz41Zyyy1Zzzz4",
    "Zyyy2Zzzz8Zyyy1Zzzz7Zyyy1Zzzz1cZyyy1Zzzz4Zyyy1Zzzz5Zyyy1Zzzz1Zyyy3Zzzz7Zyyy1Zzzz154Zyyy2Z",
    "zzz124Zyyy2Zzzz32Zyyy28cSgnwfZzzz5Sgnw1ZzzzfSgnw450Zzzz1fLatn6Zzzz6Latnd5Zzzz7Glag1Zzzz11",
    "Glag2Zzzz7Glag1Zzzz2Glag1Zzzz5Glag5Zzzz3eCyrl21Zzzz1Cyrl70Zzzz2dHmnp3ZzzzeHmnp2ZzzzaHmnp4",
    "Zzzz2Hmnp140Zzzz1fToto11Zzzz3aWcho5Zzzz1Wcho1d0Zzzz2aNagm2e6Zzzz7Ethi1Zzzz4Ethi1Zzzz2Ethi",
    "1ZzzzfEthi1Zzzzc5Mend2Zzzz10Mend29Zzzz4cAdlm4ZzzzaAdlm4Zzzz2Adlm311Zzzz44Zyyy4cZzzz3dZyyy",
    "c2Zzzz4Arab1Zzzz1bArab1Zzzz2Arab1Zzzz1Arab2Zzzz1Arab1ZzzzaArab1Zzzz4Arab1Zzzz1Arab1Zzzz1A",
    "rab6Zzzz1Arab4Zzzz1Arab1Zzzz1Arab1Zzzz1Arab1Zzzz3Arab1Zzzz2Arab1Zzzz1Arab2Zzzz1Arab1Zzzz1",
    "Arab1Zzzz1Arab1Zzzz1Arab1Zzzz1Arab1Zzzz2Arab1Zzzz1Arab2Zzzz4Arab1Zzzz7Arab1Zzzz4Arab1Zzzz",
    "4Arab1Zzzz1Arab1ZzzzaArab1Zzzz11Arab5Zzzz3Arab1Zzzz5Arab1Zzzz11Arab34Zzzz2Arab10eZzzz2cZy",
    "yy4Zzzz64ZyyycZzzzfZyyy2ZzzzfZyyy1ZzzzfZyyy1Zzzz25ZyyyaZzzzaeZyyy38Zzzz1aZyyy1Hira2ZyyydZ",
    "zzz2cZyyy4Zzzz9Zyyy7Zzzz2ZyyyeZzzz6Zyyy9aZzzz3d8Zyyy4Zzzz11Zyyy3ZzzzdZyyy3Zzzz77Zyyy4Zzzz",
    "5fZyyy6ZzzzcZyyy4Zzzz1ZyyyfZzzzcZyyy4Zzzz38Zyyy8ZzzzaZyyy6Zzzz28Zyyy8Zzzz1eZyyy2Zzzz2Zyyy",
    "4eZzzz154ZyyycZzzzeZyyy2ZzzzdZyyy3Zzzz9Zyyy7Zzzz2eZyyy1Zzzz7Zyyy8ZzzzeZyyy4Zzzz9Zyyy7Zzzz",
    "9Zyyy7Zzzz93Zyyy1Zzzz37Zyyy25ZzzzaZyyy406Zzzza6e0Hani20Zzzz103aHani6ZzzzdeHani2Zzzz1682Ha",
    "nieZzzz1d31Hanic1fZzzz21eHani5e2Zzzz134bHani5Zzzz1060Haniadc51Zzzz1Zyyy1eZzzz60Zyyy80Zzzz",
    "f0Zinh2fe10Zzzz"])

/-- The script of a character. -/
def script (c : Char) : String := scriptRuns.valueAt c.toNat

/-- Runs with script extensions: the first code point, the length and the scripts. -/
def extensionRuns : List (Nat × Nat × List String) :=
  (entries extensionText).filterMap fun entry =>
    match entry with
    | first :: length :: scripts =>
      match numbers first, numbers length with
      | [first], [length] => some (first, length, scripts)
      | _, _ => none
    | _ => none
where
  extensionText := (String.join [
    "342 1 Grek; 345 1 Grek; 363 d Latn; 483 1 Cyrl Perm; 484 1 Cyrl Glag; 485 2 Cyrl Latn; ",
    "487 1 Cyrl Glag; 60c 1 Arab Nkoo Rohg Syrc Thaa Yezi; 61b 1 Arab Nkoo Rohg Syrc Thaa ",
    "Yezi; 61c 1 Arab Syrc Thaa; 61f 1 Adlm Arab Nkoo Rohg Syrc Thaa Yezi; 640 1 Adlm Arab ",
    "Mand Mani Ougr Phlp Rohg Sogd Syrc; 64b b Arab Syrc; 660 a Arab Thaa Yezi; 670 1 Arab ",
    "Syrc; 6d4 1 Arab Rohg; 951 1 Beng Deva Gran Gujr Guru Knda Latn Mlym Orya Shrd Taml Telu ",
    "Tirh; 952 1 Beng Deva Gran Gujr Guru Knda Latn Mlym Orya Taml Telu Tirh; 964 1 Beng Deva ",
    "Dogr Gong Gonm Gran Gujr Guru Knda Mahj Mlym Nand Orya Sind Sinh Sylo Takr Taml Telu ",
    "Tirh; 965 1 Beng Deva Dogr Gong Gonm Gran Gujr Guru Knda Limb Mahj Mlym Nand Orya Sind ",
    "Sinh Sylo Takr Taml Telu Tirh; 966 a Deva Dogr Kthi Mahj; 9e6 a Beng Cakm Sylo; a66 a ",
    "Guru Mult; ae6 a Gujr Khoj; be6 e Gran Taml; ce6 a Knda Nand; 1040 a Cakm Mymr Tale; ",
    "10fb 1 Geor Latn; 1735 2 Buhd Hano Tagb Tglg; 1802 2 Mong Phag; 1805 1 Mong Phag; 1cd0 1 ",
    "Beng Deva Gran Knda; 1cd1 1 Deva; 1cd2 1 Beng Deva Gran Knda; 1cd3 1 Deva Gran; 1cd4 1 ",
    "Deva; 1cd5 2 Beng Deva; 1cd7 1 Deva Shrd; 1cd8 1 Beng Deva; 1cd9 1 Deva Shrd; 1cda 1 ",
    "Deva Knda Mlym Orya Taml Telu; 1cdb 1 Deva; 1cdc 2 Deva Shrd; 1cde 2 Deva; 1ce0 1 Deva ",
    "Shrd; 1ce1 1 Beng Deva; 1ce2 7 Deva; 1ce9 1 Deva Nand; 1cea 1 Beng Deva; 1ceb 2 Deva; ",
    "1ced 1 Beng Deva; 1cee 4 Deva; 1cf2 1 Beng Deva Gran Knda Nand Orya Telu Tirh; 1cf3 1 ",
    "Deva Gran; 1cf4 1 Deva Gran Knda; 1cf5 2 Beng Deva; 1cf7 1 Beng; 1cf8 2 Deva Gran; 1cfa ",
    "1 Nand; 1dc0 2 Grek; 1df8 1 Cyrl Syrc; 1dfa 1 Syrc; 202f 1 Latn Mong; 20f0 1 Deva Gran ",
    "Latn; 2e43 1 Cyrl Glag; 3001 2 Bopo Hang Hani Hira Kana Yiii; 3003 1 Bopo Hang Hani Hira ",
    "Kana; 3006 1 Hani; 3008 a Bopo Hang Hani Hira Kana Yiii; 3013 1 Bopo Hang Hani Hira ",
    "Kana; 3014 8 Bopo Hang Hani Hira Kana Yiii; 301c 4 Bopo Hang Hani Hira Kana; 302a 4 Bopo ",
    "Hani; 3030 1 Bopo Hang Hani Hira Kana; 3031 5 Hira Kana; 3037 1 Bopo Hang Hani Hira ",
    "Kana; 303c 2 Hani Hira Kana; 303e 2 Hani; 3099 4 Hira Kana; 30a0 1 Hira Kana; 30fb 1 ",
    "Bopo Hang Hani Hira Kana Yiii; 30fc 1 Hira Kana; 3190 10 Hani; 31c0 24 Hani; 3220 28 ",
    "Hani; 3280 31 Hani; 32c0 c Hani; 32ff 1 Hani; 3358 19 Hani; 337b 5 Hani; 33e0 1f Hani; ",
    "a66f 1 Cyrl Glag; a700 8 Hani Latn; a830 3 Deva Dogr Gujr Guru Khoj Knda Kthi Mahj Mlym ",
    "Modi Nand Sind Takr Tirh; a833 3 Deva Dogr Gujr Guru Khoj Knda Kthi Mahj Modi Nand Sind ",
    "Takr Tirh; a836 4 Deva Dogr Gujr Guru Khoj Kthi Mahj Modi Sind Takr Tirh; a8f1 1 Beng ",
    "Deva; a8f3 1 Deva Taml; a92e 1 Kali Latn Mymr; a9cf 1 Bugi Java; fd3e 2 Arab Nkoo; fdf2 ",
    "1 Arab Thaa; fdfd 1 Arab Thaa; fe45 2 Bopo Hang Hani Hira Kana; ff61 5 Bopo Hang Hani ",
    "Hira Kana Yiii; ff70 1 Hira Kana; ff9e 2 Hira Kana; 10100 2 Cpmn Cprt Linb; 10102 1 Cprt ",
    "Linb; 10107 2d Cprt Lina Linb; 10137 9 Cprt Linb; 102e0 1c Arab Copt; 10af2 1 Mani Ougr; ",
    "11301 1 Gran Taml; 11303 1 Gran Taml; 1133b 2 Gran Taml; 11fd0 2 Gran Taml; 11fd3 1 Gran ",
    "Taml; 1bca0 4 Dupl; 1d360 12 Hani; 1f250 2 Hani"])

/-- All scripts that a character is used with. -/
def scriptExtensions (c : Char) : List String :=
  match extensionRuns.find? fun (first, length, _) =>
      first ≤ c.toNat && c.toNat < first + length with
  | some (_, _, scripts) => scripts
  | none => [script c]

end EntityGraph.Unicode
