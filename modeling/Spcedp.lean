import Spcedp.Analysis.TheoremAccounting
import Spcedp.Analysis.TheoremAcks
import Spcedp.Analysis.TheoremAdmission
import Spcedp.Analysis.TheoremAlarm
import Spcedp.Analysis.TheoremAttribution
import Spcedp.Analysis.TheoremChunking
import Spcedp.Analysis.TheoremCleanup
import Spcedp.Analysis.TheoremCodec
import Spcedp.Analysis.TheoremCorruption
import Spcedp.Analysis.TheoremEncoding
import Spcedp.Analysis.TheoremEscaping
import Spcedp.Analysis.TheoremEvents
import Spcedp.Analysis.TheoremFootprint
import Spcedp.Analysis.TheoremLink
import Spcedp.Analysis.TheoremListener
import Spcedp.Analysis.TheoremLiveness
import Spcedp.Analysis.TheoremOutbound
import Spcedp.Analysis.TheoremReady
import Spcedp.Analysis.TheoremReassembly
import Spcedp.Analysis.TheoremRefresh
import Spcedp.Analysis.TheoremReplies
import Spcedp.Analysis.TheoremResync
import Spcedp.Analysis.TheoremSegmentation
import Spcedp.Analysis.TheoremSequence
import Spcedp.Analysis.TheoremSia
import Spcedp.Analysis.TheoremSnapshot
import Spcedp.Analysis.TheoremTeardown
import Spcedp.Analysis.TheoremTurns
import Spcedp.Analysis.TheoremTyped
import Spcedp.Analysis.TheoremUpdates
